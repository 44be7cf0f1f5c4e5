import Mathlib

/-!
# Sorted lists of separated spans

A set of natural numbers kept as a list of half-open spans in increasing order,
no two of which touch.  Insertion skips the spans below the new one, absorbs
every span it touches and keeps the rest; clipping cuts every span to a window.
Both are related to the set the list stands for, and insertion to the number of
elements it adds.
-/

namespace SnowTG.Lib.Spans

open List

/-- The half-open span from `left` to `right`. -/
structure Span where
  left : Nat
  right : Nat
  deriving DecidableEq, Repr

variable {lo : Nat} {l : List Span} {x : Nat} {s : Span}

/-- Non-empty spans from `lo` on, in increasing order, with a gap between any two. -/
def Separated : Nat → List Span → Prop
  | _, [] => True
  | lo, s :: rest => lo ≤ s.left ∧ s.left < s.right ∧ Separated (s.right + 1) rest

/-- The numbers a list of spans stands for. -/
def points : List Span → Finset Nat
  | [] => ∅
  | s :: rest => Finset.Ico s.left s.right ∪ points rest

theorem mem_points : x ∈ points l ↔ ∃ s ∈ l, s.left ≤ x ∧ x < s.right := by
  induction l with
  | nil => simp [points]
  | cons s rest ih => simp [points, ih]

theorem Separated.mono {lo' : Nat} (h : Separated lo l) (hle : lo' ≤ lo) : Separated lo' l := by
  cases l with
  | nil => trivial
  | cons s rest => exact ⟨hle.trans h.1, h.2⟩

theorem Separated.le_of_mem_points (h : Separated lo l) (hx : x ∈ points l) : lo ≤ x := by
  induction l generalizing lo with
  | nil => simp [points] at hx
  | cons s rest ih =>
    obtain ⟨hlo, hlt, hrest⟩ := h
    rcases Finset.mem_union.mp hx with hx | hx
    · have := (Finset.mem_Ico.mp hx).1
      omega
    · have := ih hrest hx
      omega

theorem Separated.mem_bounds (h : Separated lo l) : ∀ s ∈ l, lo ≤ s.left ∧ s.left < s.right := by
  induction l generalizing lo with
  | nil => simp
  | cons s rest ih =>
    obtain ⟨hlo, hlt, hrest⟩ := h
    intro t ht
    rcases mem_cons.mp ht with rfl | ht
    · exact ⟨hlo, hlt⟩
    · have := ih hrest t ht
      omega

/-- Spans in order are pairwise apart. -/
theorem Separated.pairwise (h : Separated lo l) : l.Pairwise fun s t => s.right < t.left := by
  induction l generalizing lo with
  | nil => exact List.Pairwise.nil
  | cons s rest ih =>
    obtain ⟨-, -, hrest⟩ := h
    refine List.Pairwise.cons (fun t ht => ?_) (ih hrest)
    have := (hrest.mem_bounds t ht).1
    omega

/-- Outcome of the absorbing loop: the grown span, how many numbers of the inserted window the
absorbed spans already held, how many spans were absorbed, and the spans left. -/
structure Absorbed where
  left : Nat
  right : Nat
  held : Nat
  merged : Nat
  rest : List Span
  deriving DecidableEq, Repr

/-- Grow the span from `left` to `right` by every span it touches; `a` and `b` are the edges it
started from. -/
def absorb (a b : Nat) : List Span → Nat → Nat → Absorbed
  | [], left, right => ⟨left, right, 0, 0, []⟩
  | s :: rest, left, right =>
    if right < s.left then ⟨left, right, 0, 0, s :: rest⟩
    else
      let grown := absorb a b rest (min left s.left) (max right s.right)
      { grown with
        held := grown.held + (min b s.right - max a s.left)
        merged := grown.merged + 1 }

/-- Insert the numbers from `a` up to `b`. -/
def insert (a b : Nat) (l : List Span) : List Span :=
  let grown := absorb a b (l.dropWhile fun s => s.right < a) a b
  (l.takeWhile fun s => s.right < a) ++ ⟨grown.left, grown.right⟩ :: grown.rest

/-- How many numbers the insertion adds. -/
def added (a b : Nat) (l : List Span) : Nat :=
  b - a - (absorb a b (l.dropWhile fun s => s.right < a) a b).held

/-- Cut every span to the window from `a` to `b`. -/
def clip (a b : Nat) (l : List Span) : List Span :=
  l.filterMap fun s =>
    if s.left < b ∧ a < s.right then some ⟨max s.left a, min s.right b⟩ else none

section Absorb

variable {a b left right : Nat}

theorem absorb_length : (absorb a b l left right).merged + (absorb a b l left right).rest.length =
    l.length := by
  induction l generalizing left right with
  | nil => rfl
  | cons s rest ih =>
    rw [absorb]
    split_ifs
    · simp
    · have := @ih (min left s.left) (max right s.right)
      simp only [length_cons]
      omega

theorem absorb_left_le : (absorb a b l left right).left ≤ left := by
  induction l generalizing left right with
  | nil => exact le_rfl
  | cons s rest ih =>
    rw [absorb]
    split_ifs
    · exact le_rfl
    · exact ih.trans (min_le_left _ _)

theorem le_absorb_right : right ≤ (absorb a b l left right).right := by
  induction l generalizing left right with
  | nil => exact le_rfl
  | cons s rest ih =>
    rw [absorb]
    split_ifs
    · exact le_rfl
    · exact (le_max_left _ _).trans ih

theorem min_le_absorb_left (h : Separated lo l) : min left lo ≤ (absorb a b l left right).left := by
  induction l generalizing lo left right with
  | nil => exact min_le_left _ _
  | cons s rest ih =>
    obtain ⟨hlo, hlt, hrest⟩ := h
    rw [absorb]
    split_ifs
    · exact min_le_left _ _
    · have := @ih _ (min left s.left) (max right s.right) hrest
      simp only
      omega

/-- What is left behind the grown span starts with a gap. -/
theorem absorb_rest_separated (h : Separated lo l) :
    Separated ((absorb a b l left right).right + 1) (absorb a b l left right).rest := by
  induction l generalizing lo left right with
  | nil => trivial
  | cons s rest ih =>
    obtain ⟨-, hlt, hrest⟩ := h
    rw [absorb]
    split_ifs with hgap
    · exact ⟨hgap, hlt, hrest⟩
    · exact ih hrest

/-- The grown span and the rest hold exactly what the spans and the window held. -/
theorem absorb_points (h : Separated lo l) (htouch : ∀ s ∈ l, left ≤ s.right) (hlr : left ≤ right) :
    Finset.Ico (absorb a b l left right).left (absorb a b l left right).right ∪
        points (absorb a b l left right).rest = Finset.Ico left right ∪ points l := by
  induction l generalizing lo left right with
  | nil => rfl
  | cons s rest ih =>
    obtain ⟨-, hlt, hrest⟩ := h
    rw [absorb]
    split_ifs with hgap
    · rfl
    · have hs := htouch s (by simp)
      have hgrown := @ih _ (min left s.left) (max right s.right) hrest
        (fun t ht => (min_le_left _ _).trans (htouch t (by simp [ht]))) (by omega)
      simp only [hgrown, points]
      ext x
      simp only [Finset.mem_union, Finset.mem_Ico]
      constructor
      · rintro (hx | hx)
        · omega
        · exact .inr (.inr hx)
      · rintro (hx | hx | hx)
        · omega
        · omega
        · exact .inr hx

/-- The numbers of the window that the spans already held are counted exactly. -/
theorem absorb_held (h : Separated lo l) (hright : b ≤ right) :
    (absorb a b l left right).held = (Finset.Ico a b ∩ points l).card := by
  induction l generalizing lo left right with
  | nil => simp [absorb, points]
  | cons s rest ih =>
    obtain ⟨hlo, hlt, hrest⟩ := h
    rw [absorb]
    split_ifs with hgap
    · rw [eq_comm, Finset.card_eq_zero, Finset.eq_empty_iff_forall_notMem]
      intro x hx
      have hwin := Finset.mem_Ico.mp (Finset.mem_inter.mp hx).1
      have hfar : Separated s.left (s :: rest) := ⟨le_rfl, hlt, hrest⟩
      have := hfar.le_of_mem_points (Finset.mem_inter.mp hx).2
      omega
    · have hgrown := @ih _ (min left s.left) (max right s.right) hrest (by omega)
      have hdisj : Disjoint (Finset.Ico a b ∩ Finset.Ico s.left s.right)
          (Finset.Ico a b ∩ points rest) := by
        rw [Finset.disjoint_left]
        intro x hx hx'
        have hin := Finset.mem_Ico.mp (Finset.mem_inter.mp hx).2
        have := hrest.le_of_mem_points (Finset.mem_inter.mp hx').2
        omega
      rw [points, Finset.inter_union_distrib_left, Finset.card_union_of_disjoint hdisj, ← hgrown,
        Finset.Ico_inter_Ico, Nat.card_Ico]
      simp only
      omega

end Absorb

section Insert

variable {a b : Nat}

theorem split_at (a : Nat) (l : List Span) :
    (l.takeWhile fun s => s.right < a) ++ (l.dropWhile fun s => s.right < a) = l :=
  takeWhile_append_dropWhile

theorem right_lt_of_mem_takeWhile (hs : s ∈ l.takeWhile fun s => s.right < a) : s.right < a := by
  have hall := all_takeWhile (l := l) (p := fun s => decide (s.right < a))
  simpa using all_eq_true.mp hall s hs

theorem Separated.le_right_of_mem_dropWhile (h : Separated lo l)
    (hs : s ∈ l.dropWhile fun s => s.right < a) : a ≤ s.right := by
  induction l generalizing lo with
  | nil => simp at hs
  | cons t rest ih =>
    obtain ⟨-, hlt, hrest⟩ := h
    simp only [dropWhile_cons] at hs
    split_ifs at hs with hbelow
    · exact ih hrest hs
    · simp only [decide_eq_true_eq] at hbelow
      rcases mem_cons.mp hs with rfl | hs
      · omega
      · have := hrest.mem_bounds s hs
        omega

theorem separated_append {r : List Span} :
    Separated lo (l ++ r) ↔ Separated lo l ∧ Separated (l.foldl (fun _ s => s.right + 1) lo) r := by
  induction l generalizing lo with
  | nil => simp [Separated]
  | cons s rest ih => simp only [cons_append, Separated, foldl_cons, ih, and_assoc]

theorem points_append (l r : List Span) : points (l ++ r) = points l ∪ points r := by
  induction l with
  | nil => simp [points]
  | cons s rest ih => simp only [cons_append, points, ih, Finset.union_assoc]

/-- The least start allowed behind a list whose spans all end below `a`. -/
theorem foldl_right_le (hlo : lo ≤ a) (h : ∀ s ∈ l, s.right < a) :
    l.foldl (fun _ s => s.right + 1) lo ≤ a := by
  induction l generalizing lo with
  | nil => exact hlo
  | cons s rest ih =>
    rw [foldl_cons]
    exact ih (h s (by simp)) fun t ht => h t (by simp [ht])

/-- Insertion keeps the spans sorted, apart and non-empty. -/
theorem Separated.insert (h : Separated lo l) (hlo : lo ≤ a) (hab : a < b) :
    Separated lo (insert a b l) := by
  have hwhole := split_at a l
  rw [← hwhole, separated_append] at h
  refine separated_append.mpr ⟨h.1, ?_, ?_, absorb_rest_separated h.2⟩
  · have hmin := @min_le_absorb_left _ _ a b a b h.2
    have hfold := foldl_right_le hlo fun s hs => right_lt_of_mem_takeWhile (a := a) (l := l) hs
    simp only
    omega
  · have hl := @absorb_left_le (l.dropWhile fun s => decide (s.right < a)) a b a b
    have hr := @le_absorb_right (l.dropWhile fun s => decide (s.right < a)) a b a b
    simp only
    omega

/-- Insertion adds exactly the window. -/
theorem points_insert (h : Separated lo l) (hab : a ≤ b) :
    points (insert a b l) = points l ∪ Finset.Ico a b := by
  have hwhole := split_at a l
  have hsplit := fun s hs => h.le_right_of_mem_dropWhile (a := a) (s := s) hs
  have hsep := h
  rw [← hwhole, separated_append] at hsep
  have habsorb := absorb_points (a := a) (b := b) hsep.2 hsplit hab
  rw [Spans.insert, points_append, points, habsorb, Finset.union_comm (Finset.Ico a b),
    ← Finset.union_assoc, ← points_append, hwhole]

/-- The numbers already held are among those inserted. -/
theorem absorb_held_le (h : Separated lo l) :
    (absorb a b (l.dropWhile fun s => s.right < a) a b).held ≤ b - a := by
  rw [← split_at a l,
    separated_append] at h
  rw [absorb_held h.2 le_rfl, ← Nat.card_Ico]
  exact Finset.card_le_card Finset.inter_subset_left

/-- The count of added numbers is exact. -/
theorem card_points_insert (h : Separated lo l) (hab : a ≤ b) :
    (points (insert a b l)).card = (points l).card + added a b l := by
  have hwhole := split_at a l
  have hsep := h
  rw [← hwhole, separated_append] at hsep
  have hheld := @absorb_held _ _ a b a b hsep.2 (le_refl b)
  -- spans below the window hold nothing of it
  have hnone : Finset.Ico a b ∩ points l =
      Finset.Ico a b ∩ points (l.dropWhile fun s => decide (s.right < a)) := by
    rw [← hwhole, points_append, hwhole, Finset.inter_union_distrib_left]
    refine Finset.union_eq_right.mpr fun x hx => ?_
    obtain ⟨hwin, hpre⟩ := Finset.mem_inter.mp hx
    obtain ⟨s, hs, -, hxs⟩ := mem_points.mp hpre
    have := right_lt_of_mem_takeWhile hs
    have := (Finset.mem_Ico.mp hwin).1
    omega
  rw [points_insert h hab, added, hheld, ← hnone]
  have hcard := Finset.card_union_add_card_inter (points l) (Finset.Ico a b)
  have hle : (Finset.Ico a b ∩ points l).card ≤ (Finset.Ico a b).card :=
    Finset.card_le_card Finset.inter_subset_left
  rw [Finset.inter_comm] at hcard
  rw [Nat.card_Ico] at hcard hle
  omega

theorem length_insert :
    (insert a b l).length + (absorb a b (l.dropWhile fun s => s.right < a) a b).merged =
      l.length + 1 := by
  have hlen := @absorb_length (l.dropWhile fun s => decide (s.right < a)) a b a b
  have hwhole := congrArg List.length
    (split_at a l)
  rw [length_append] at hwhole
  simp only [Spans.insert, length_append, length_cons]
  omega

end Insert

section Clip

variable {a b : Nat}

/-- Clipping keeps exactly the numbers of the window. -/
theorem points_clip : points (clip a b l) = points l ∩ Finset.Ico a b := by
  ext x
  simp only [Finset.mem_inter, mem_points, clip, mem_filterMap, Finset.mem_Ico]
  constructor
  · rintro ⟨t, ⟨s, hs, hcut⟩, hx⟩
    split_ifs at hcut with hmeet
    obtain rfl := Option.some.inj hcut
    simp only at hx
    exact ⟨⟨s, hs, by omega, by omega⟩, by omega, by omega⟩
  · rintro ⟨⟨s, hs, hleft, hright⟩, ha, hb⟩
    refine ⟨⟨max s.left a, min s.right b⟩, ⟨s, hs, if_pos ⟨by omega, by omega⟩⟩, ?_, ?_⟩
    · simp only
      omega
    · simp only
      omega

/-- Clipping to a non-empty window keeps the spans sorted, apart and non-empty. -/
theorem Separated.clip (h : Separated lo l) (hab : a < b) : Separated (max lo a) (clip a b l) := by
  induction l generalizing lo with
  | nil => trivial
  | cons s rest ih =>
    obtain ⟨hlo, hlt, hrest⟩ := h
    have htail := ih hrest
    simp only [Spans.clip, filterMap_cons]
    split_ifs with hmeet
    · refine ⟨?_, ?_, htail.mono ?_⟩ <;> simp only <;> omega
    · exact htail.mono (by omega)

theorem clip_right_le (hs : s ∈ clip a b l) : a ≤ s.left ∧ s.right ≤ b := by
  simp only [Spans.clip, mem_filterMap] at hs
  obtain ⟨t, -, hcut⟩ := hs
  split_ifs at hcut
  obtain rfl := Option.some.inj hcut
  exact ⟨le_max_right _ _, min_le_right _ _⟩

end Clip

end SnowTG.Lib.Spans
