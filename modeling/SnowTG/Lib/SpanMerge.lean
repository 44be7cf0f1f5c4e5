import SnowTG.Lib.Spans

/-!
# Merging spans that touch

Spans that come in order of their left ends are merged with the span before them
when they touch it.  The result is separated whatever comes in, and stands for
the same numbers when the input is in order and no limit cuts it off.
-/

namespace SnowTG.Lib.Spans

open List

variable {lo limit bound : Nat} {l acc : List Span} {s : Span} {a b : Nat}

/-- Merge spans that touch; the accumulator has the last span first and never exceeds `limit`. -/
def mergeTouching (limit : Nat) : List Span → List Span → List Span
  | [], acc => acc.reverse
  | s :: rest, [] => mergeTouching limit rest [s]
  | s :: rest, last :: older =>
    if s.left ≤ last.right then
      mergeTouching limit rest (⟨last.left, max last.right s.right⟩ :: older)
    else if (last :: older).length = limit then (last :: older).reverse
    else mergeTouching limit rest (s :: last :: older)

theorem separated_concat (h : Separated lo l) (hlo : lo ≤ s.left) (hs : s.left < s.right)
    (hgap : ∀ t ∈ l, t.right < s.left) : Separated lo (l ++ [s]) := by
  induction l generalizing lo with
  | nil => exact ⟨hlo, hs, trivial⟩
  | cons t rest ih =>
    obtain ⟨hle, hlt, hrest⟩ := h
    refine ⟨hle, hlt, ih hrest (hgap t mem_cons_self) ?_⟩
    exact fun u hu => hgap u (mem_cons_of_mem _ hu)

theorem Separated.of_concat (h : Separated lo (l ++ [s])) :
    Separated lo l ∧ lo ≤ s.left ∧ s.left < s.right ∧ ∀ t ∈ l, t.right < s.left := by
  induction l generalizing lo with
  | nil => exact ⟨trivial, h.1, h.2.1, by simp⟩
  | cons t rest ih =>
    obtain ⟨hle, hlt, hrest⟩ := h
    obtain ⟨hsep, hlo, hs, hgap⟩ := ih hrest
    refine ⟨⟨hle, hlt, hsep⟩, by omega, hs, ?_⟩
    intro u hu
    rcases mem_cons.mp hu with rfl | hu
    · omega
    · exact hgap u hu

theorem mergeTouching_separated (hl : ∀ s ∈ l, s.left < s.right) (hacc : Separated 0 acc.reverse) :
    Separated 0 (mergeTouching limit l acc) := by
  induction l generalizing acc with
  | nil => exact hacc
  | cons s rest ih =>
    have hs := hl s mem_cons_self
    have hrest : ∀ t ∈ rest, t.left < t.right := fun t ht => hl t (mem_cons_of_mem _ ht)
    cases acc with
    | nil => exact ih hrest ⟨zero_le, hs, trivial⟩
    | cons last older =>
      rw [reverse_cons] at hacc
      obtain ⟨hsep, -, hlast, hgap⟩ := hacc.of_concat
      rw [mergeTouching]
      split_ifs with htouch hfull
      · apply ih hrest
        rw [reverse_cons]
        exact separated_concat hsep zero_le (hlast.trans_le (le_max_left _ _)) hgap
      · rw [reverse_cons]
        exact hacc
      · apply ih hrest
        rw [reverse_cons, reverse_cons]
        refine separated_concat hacc zero_le hs ?_
        intro t ht
        rcases mem_append.mp ht with ht | ht
        · have := hgap t ht
          omega
        · rw [mem_singleton.mp ht]
          omega

theorem mergeTouching_right_lt (hl : ∀ s ∈ l, s.right < bound) (hacc : ∀ s ∈ acc, s.right < bound) :
    ∀ s ∈ mergeTouching limit l acc, s.right < bound := by
  induction l generalizing acc with
  | nil => exact fun s hs => hacc s (mem_reverse.mp hs)
  | cons s rest ih =>
    have hs := hl s mem_cons_self
    have hrest : ∀ t ∈ rest, t.right < bound := fun t ht => hl t (mem_cons_of_mem _ ht)
    cases acc with
    | nil => exact ih hrest (by simpa using hs)
    | cons last older =>
      rw [mergeTouching]
      have hlast := hacc last mem_cons_self
      have holder : ∀ t ∈ older, t.right < bound :=
        fun t ht => hacc t (mem_cons_of_mem _ ht)
      split_ifs with htouch hfull
      · apply ih hrest
        intro t ht
        rcases mem_cons.mp ht with rfl | ht
        · exact max_lt hlast hs
        · exact holder t ht
      · exact fun t ht => hacc t (mem_reverse.mp ht)
      · apply ih hrest
        intro t ht
        rcases mem_cons.mp ht with rfl | ht
        · exact hs
        · exact hacc t ht

theorem points_reverse (l : List Span) : points l.reverse = points l := by
  ext x
  simp [mem_points]

/-- Merging spans in order of their left ends loses and adds no number. -/
theorem points_mergeTouching (hlt : ∀ s ∈ l, s.left < s.right)
    (hl : l.Pairwise fun s t => s.left ≤ t.left)
    (hacc : ∀ last ∈ acc.head?, ∀ s ∈ l, last.left ≤ s.left)
    (hfew : acc.length + l.length ≤ limit) :
    points (mergeTouching limit l acc) = points acc ∪ points l := by
  induction l generalizing acc with
  | nil => simp [mergeTouching, points_reverse, points]
  | cons s rest ih =>
    obtain ⟨hfirst, hpair⟩ := pairwise_cons.mp hl
    have hlt' : ∀ t ∈ rest, t.left < t.right := fun t ht => hlt t (mem_cons_of_mem _ ht)
    rw [length_cons] at hfew
    cases acc with
    | nil =>
      rw [mergeTouching, ih hlt' hpair (by simpa using hfirst) (by simpa using by omega)]
      simp [points]
    | cons last older =>
      have hleft := hacc last rfl s mem_cons_self
      have hs := hlt s mem_cons_self
      rw [length_cons] at hfew
      rw [mergeTouching]
      split_ifs with htouch hfull
      · rw [ih hlt' hpair (by
          rintro t ⟨⟩ u hu
          exact hleft.trans (hfirst u hu)) (by rw [length_cons]; omega)]
        have hunion : Finset.Ico last.left (max last.right s.right) =
            Finset.Ico last.left last.right ∪ Finset.Ico s.left s.right := by
          ext x
          simp only [Finset.mem_union, Finset.mem_Ico]
          omega
        simp only [points, hunion, Finset.union_assoc, Finset.union_left_comm]
      · rw [length_cons] at hfull
        omega
      · rw [ih hlt' hpair (by
          rintro t ⟨⟩ u hu
          exact hfirst u hu) (by simp only [length_cons]; omega)]
        simp only [points, Finset.union_assoc, Finset.union_left_comm]

/-- Two different spans are apart. -/
theorem Separated.apart {t : Span} (h : Separated lo l) (hs : s ∈ l) (ht : t ∈ l) (hne : s ≠ t) :
    s.right < t.left ∨ t.right < s.left := by
  have hpair : l.Pairwise fun s t => s.right < t.left ∨ t.right < s.left := h.pairwise.imp .inl
  have : Std.Symm fun s t : Span => s.right < t.left ∨ t.right < s.left := ⟨fun _ _ => Or.symm⟩
  exact hpair.forall hs ht hne

/-- The numbers next to a span are in none. -/
theorem Separated.beside_notMem {x : Nat} (h : Separated lo l) (hs : s ∈ l)
    (hx : x = s.right ∨ x + 1 = s.left) : x ∉ points l := by
  intro hmem
  obtain ⟨t, ht, hleft, hright⟩ := mem_points.mp hmem
  have hne : s ≠ t := by
    rintro rfl
    omega
  have hbounds := (h.mem_bounds s hs).2
  have hapart := h.apart hs ht hne
  omega

/-- A stretch of numbers lies in one span. -/
theorem Separated.exists_superset (h : Separated lo l) (hab : a < b)
    (hsub : ∀ x, a ≤ x → x < b → x ∈ points l) : ∃ s ∈ l, s.left ≤ a ∧ b ≤ s.right := by
  obtain ⟨s, hs, hleft, hright⟩ := mem_points.mp (hsub a le_rfl hab)
  refine ⟨s, hs, hleft, ?_⟩
  by_contra hshort
  exact h.beside_notMem hs (.inl rfl) (hsub s.right (by omega) (by omega))

/-- A stretch lies in a longer span exactly if a number next to it is there as well. -/
theorem Separated.exists_longer_iff (h : Separated lo l) (hab : a < b) :
    (∃ s ∈ l, s.left ≤ a ∧ b ≤ s.right ∧ (s.left < a ∨ b < s.right)) ↔
      (∀ x, a ≤ x → x < b → x ∈ points l) ∧ (b ∈ points l ∨ 0 < a ∧ a - 1 ∈ points l) := by
  constructor
  · rintro ⟨s, hs, hleft, hright, hlonger⟩
    refine ⟨fun x hax hxb => mem_points.mpr ⟨s, hs, by omega, by omega⟩, ?_⟩
    rcases hlonger with hbefore | hbehind
    · exact .inr ⟨by omega, mem_points.mpr ⟨s, hs, by omega, by omega⟩⟩
    · exact .inl (mem_points.mpr ⟨s, hs, by omega, hbehind⟩)
  · rintro ⟨hsub, hnext⟩
    obtain ⟨s, hs, hleft, hright⟩ := h.exists_superset hab hsub
    refine ⟨s, hs, hleft, hright, ?_⟩
    rcases hnext with hmem | ⟨hpos, hmem⟩
    · right
      refine lt_of_le_of_ne hright ?_
      rintro rfl
      exact h.beside_notMem hs (.inl rfl) hmem
    · left
      refine lt_of_le_of_ne hleft ?_
      rintro rfl
      exact h.beside_notMem hs (.inr (Nat.sub_add_cancel hpos)) hmem

end SnowTG.Lib.Spans
