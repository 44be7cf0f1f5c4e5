import SnowTG.Lib.Spans

/-!
# Counting along the gaps of a span list

The numbers outside a sorted span list are walked gap by gap.  Rules that look at
the spans above a number, by how many there are or how many numbers they hold, can
only be lost on the way up; a binary search finds where.
-/

namespace SnowTG.Lib.Spans

open Finset

variable {lo : Nat} {l : List Span} {x y : Nat} {s : Span} {rest : List Span}

/-- How many spans lie above `x`. -/
def spansAbove (l : List Span) (x : Nat) : Nat := (l.filter fun s => x < s.left).length

/-- How many numbers of the spans lie above `x`. -/
def pointsAbove (l : List Span) (x : Nat) : Nat := ((points l).filter (x < ·)).card

/-- How many numbers of the spans lie at `x` or above, span by span. -/
def countFrom (l : List Span) (x : Nat) : Nat :=
  (l.map fun s => s.right - max s.left x).sum

@[simp] theorem spansAbove_nil (x : Nat) : spansAbove [] x = 0 := rfl

@[simp] theorem spansAbove_cons (s : Span) (rest : List Span) (x : Nat) :
    spansAbove (s :: rest) x = (if x < s.left then 1 else 0) + spansAbove rest x := by
  unfold spansAbove
  split_ifs with h
  · simp [h, add_comm]
  · simp [h]

@[simp] theorem countFrom_nil (x : Nat) : countFrom [] x = 0 := rfl

@[simp] theorem countFrom_cons (s : Span) (rest : List Span) (x : Nat) :
    countFrom (s :: rest) x = (s.right - max s.left x) + countFrom rest x := by
  simp [countFrom]

theorem spansAbove_antitone (h : x ≤ y) : spansAbove l y ≤ spansAbove l x := by
  unfold spansAbove
  apply List.Sublist.length_le
  apply List.monotone_filter_right
  intro s hs
  simp only [decide_eq_true_eq] at hs ⊢
  omega

theorem pointsAbove_antitone (h : x ≤ y) : pointsAbove l y ≤ pointsAbove l x := by
  apply card_le_card
  intro z hz
  simp only [mem_filter] at hz ⊢
  exact ⟨hz.1, by omega⟩

/-- The numbers of the first span and those of the others are different. -/
theorem Separated.disjoint_points (h : Separated lo (s :: rest)) :
    Disjoint (Finset.Ico s.left s.right) (points rest) := by
  rw [disjoint_left]
  intro x hx hrest
  have hle := h.2.2.le_of_mem_points hrest
  have hlt := (mem_Ico.mp hx).2
  omega

/-- Counting span by span counts the numbers at `x` or above. -/
theorem countFrom_eq (h : Separated lo l) (x : Nat) :
    countFrom l x = ((points l).filter (x ≤ ·)).card := by
  induction l generalizing lo with
  | nil => simp [countFrom, points]
  | cons s rest ih =>
    have hfirst : (Finset.Ico s.left s.right).filter (x ≤ ·) =
        Finset.Ico (max s.left x) s.right := by
      ext y
      simp only [mem_filter, mem_Ico]
      omega
    have hdisjoint : Disjoint ((Finset.Ico s.left s.right).filter (x ≤ ·))
        ((points rest).filter (x ≤ ·)) :=
      disjoint_filter_filter h.disjoint_points
    rw [points, filter_union, card_union_of_disjoint hdisjoint, hfirst, Nat.card_Ico, ← ih h.2.2]
    rfl

/-- A number outside the spans has the same numbers at it and above it. -/
theorem countFrom_eq_pointsAbove (h : Separated lo l) (hx : x ∉ points l) :
    countFrom l x = pointsAbove l x := by
  rw [countFrom_eq h, pointsAbove]
  congr 1
  apply filter_congr
  intro y hy
  constructor
  · intro hle
    apply lt_of_le_of_ne hle
    rintro rfl
    exact hx hy
  · exact le_of_lt

/-- The numbers outside the spans: first the gap before the first span, then those behind it. -/
theorem Separated.gaps_cons (h : Separated lo (s :: rest)) (c f : Nat) :
    Finset.Ico c f \ points (s :: rest) =
      Finset.Ico c (min s.left f) ∪ (Finset.Ico (max c s.right) f \ points rest) := by
  have hlt := h.2.1
  ext x
  simp only [points, mem_sdiff, mem_union, mem_Ico]
  constructor
  · rintro ⟨hx, hout⟩
    by_cases hbefore : x < s.left
    · exact .inl (by omega)
    · exact .inr ⟨by omega, fun hrest => hout (.inr hrest)⟩
  · rintro (hx | ⟨hx, hout⟩)
    · refine ⟨by omega, ?_⟩
      rintro (hs | hrest)
      · omega
      · have hle := h.2.2.le_of_mem_points hrest
        omega
    · refine ⟨by omega, ?_⟩
      rintro (hs | hrest)
      · omega
      · exact hout hrest

/-- A sum over the numbers outside the spans splits at the first span. -/
theorem Separated.sum_gaps_cons (h : Separated lo (s :: rest)) (c f : Nat) (g : Nat → Nat) :
    ∑ x ∈ Finset.Ico c f \ points (s :: rest), g x =
      ∑ x ∈ Finset.Ico c (min s.left f), g x +
        ∑ x ∈ Finset.Ico (max c s.right) f \ points rest, g x := by
  have hlt := h.2.1
  rw [h.gaps_cons, sum_union]
  rw [disjoint_left]
  intro x hx hback
  have hfirst := mem_Ico.mp hx
  have hsecond := mem_Ico.mp (mem_sdiff.mp hback).1
  omega

section Search

variable (p : Nat → Bool)

/-- Binary search for the first number from `lo` on that fails `p`, for at most so many rounds. -/
def firstFailing : Nat → Nat → Nat → Nat
  | 0, lo, _ => lo
  | rounds + 1, lo, hi =>
    if lo < hi then
      let mid := lo + (hi - lo) / 2
      if p mid then firstFailing rounds (mid + 1) hi else firstFailing rounds lo mid
    else lo

variable {p}

/-- If `p` can only be lost on the way up, the search finds the numbers that meet it. -/
theorem firstFailing_spec {n : Nat} (hp : ∀ x y, x ≤ y → y < n → p y = true → p x = true)
    (rounds lo hi : Nat) (hle : lo ≤ hi) (hn : hi ≤ n) (hrounds : hi - lo < 2 ^ rounds)
    (hbelow : ∀ x < lo, p x = true) (habove : ∀ x, hi ≤ x → x < n → p x = false) :
    firstFailing p rounds lo hi ≤ n ∧ ∀ x < n, p x = true ↔ x < firstFailing p rounds lo hi := by
  have hdone : ∀ lo hi, hi ≤ lo → lo ≤ n → (∀ x < lo, p x = true) →
      (∀ x, hi ≤ x → x < n → p x = false) → lo ≤ n ∧ ∀ x < n, p x = true ↔ x < lo := by
    intro lo hi hhi hlo hbelow habove
    refine ⟨hlo, fun x hx => ⟨fun htrue => ?_, fun hlt => hbelow x hlt⟩⟩
    by_contra hge
    rw [habove x (by omega) hx] at htrue
    cases htrue
  induction rounds generalizing lo hi with
  | zero => exact hdone lo hi (by omega) (by omega) hbelow habove
  | succ rounds ih =>
    rw [Nat.pow_succ] at hrounds
    rw [firstFailing]
    by_cases hlt : lo < hi
    · rw [if_pos hlt]
      dsimp only
      by_cases hmid : p (lo + (hi - lo) / 2) = true
      · rw [if_pos hmid]
        apply ih (lo + (hi - lo) / 2 + 1) hi (by omega) hn (by omega) _ habove
        intro x hx
        exact hp x (lo + (hi - lo) / 2) (by omega) (by omega) hmid
      · rw [if_neg hmid]
        apply ih lo (lo + (hi - lo) / 2) (by omega) (by omega) (by omega) hbelow
        intro x hx hxn
        by_contra htrue
        rw [Bool.not_eq_false] at htrue
        exact hmid (hp _ x hx hxn htrue)
    · rw [if_neg hlt]
      exact hdone lo hi (by omega) (by omega) hbelow habove

end Search

end SnowTG.Lib.Spans
