import SnowTG.Lib.Spans
import SnowTG.Tcp.Sack

/-!
# Range lists of the scoreboard

A range list of the scoreboard is the image of a list of spans of stream
positions.  As long as all positions lie in one half of the sequence space, the
list operations of `tcp_sack.c` are the operations on spans.
-/

namespace SnowTG.Tcp

open SnowTG.Lib SnowTG.Lib.Spans List
open SnowTG.Lib.Serial (pos Near)

variable {base : Seq} {w a b left right : Nat} {l : List Span}

/-- The range node that holds a span of stream positions. -/
def toRange (base : Seq) (s : Span) : SackRange :=
  ⟨Serial.pos base s.left, Serial.pos base s.right⟩

@[simp] theorem toRange_left (s : Span) : (toRange base s).left = pos base s.left := by
  rw [toRange]

@[simp] theorem toRange_right (s : Span) : (toRange base s).right = pos base s.right := by
  rw [toRange]

/-- All edges of the spans can be compared with positions from `w` on. -/
def SpansNear (w : Nat) (l : List Span) : Prop := ∀ s ∈ l, Near w s.left ∧ Near w s.right

theorem lt_pos (base : Seq) (ha : Near w a) (hb : Near w b) :
    Serial.lt (pos base a) (pos base b) = decide (a < b) :=
  Bool.eq_iff_iff.mpr (by rw [Near.lt_iff base ha hb, decide_eq_true_iff])

theorem seqGt_pos (base : Seq) (ha : Near w a) (hb : Near w b) :
    seqGt (pos base a) (pos base b) = decide (b < a) :=
  lt_pos base hb ha

section

variable (ha : Near w a) (hb : Near w b)
include ha hb

theorem near_min : Near w (min a b) := by
  rcases min_choice a b with h | h <;> rw [h] <;> assumption

theorem near_max : Near w (max a b) := by
  rcases max_choice a b with h | h <;> rw [h] <;> assumption

/-- The earlier of two positions, as the C code picks it. -/
theorem ite_lt_eq_min :
    (if Serial.lt (pos base a) (pos base b) then pos base a
      else pos base b) = pos base (min a b) := by
  rw [lt_pos base ha hb]
  split_ifs with h <;> rw [decide_eq_true_iff] at h <;> congr 1 <;> omega

/-- The later of two positions, as the C code picks it. -/
theorem ite_seqGt_eq_max :
    (if seqGt (pos base a) (pos base b) then pos base a else pos base b) = pos base (max a b) := by
  rw [seqGt_pos base ha hb]
  split_ifs with h <;> rw [decide_eq_true_iff] at h <;> congr 1 <;> omega

theorem ite_lt_eq_max :
    (if Serial.lt (pos base a) (pos base b) then pos base b
      else pos base a) = pos base (max a b) := by
  rw [max_comm]
  exact ite_seqGt_eq_max hb ha

theorem ite_seqGt_eq_min :
    (if seqGt (pos base a) (pos base b) then pos base b else pos base a) = pos base (min a b) := by
  rw [min_comm]
  exact ite_lt_eq_min hb ha

end

/-- The second loop of `range_insert` absorbs spans. -/
theorem rangeMerge_map (hl : SpansNear w l) (ha : Near w a) (hb : Near w b) (hleft : Near w left)
    (hright : Near w right) (newly : BitVec 32) (merged : Nat) :
    rangeMerge (pos base a) (pos base b) (l.map (toRange base))
        (pos base left) (pos base right) newly merged =
      { left := pos base (absorb a b l left right).left
        right := pos base (absorb a b l left right).right
        newlyCovered := newly - BitVec.ofNat 32 (absorb a b l left right).held
        merged := merged + (absorb a b l left right).merged
        rest := (absorb a b l left right).rest.map (toRange base) } := by
  induction l generalizing left right newly merged with
  | nil => simp [rangeMerge, absorb]
  | cons s rest ih =>
    obtain ⟨hsl, hsr⟩ := hl s (by simp)
    have hrest : SpansNear w rest := fun t ht => hl t (by simp [ht])
    rw [map_cons, rangeMerge, absorb]
    simp only [toRange_left, toRange_right, seqGt_pos base hsl hright, decide_eq_true_eq]
    by_cases hgap : right < s.left
    · simp [hgap]
    · simp only [if_neg hgap, ite_seqGt_eq_max hsl ha, ite_lt_eq_min hsr hb,
        ite_lt_eq_min hsl hleft, ite_seqGt_eq_max hsr hright,
        ih hrest (near_min hleft hsl) (near_max hright hsr),
        lt_pos base (near_max ha hsl) (near_min hb hsr), decide_eq_true_eq, min_comm s.left left,
        max_comm s.right right, max_comm s.left a, min_comm s.right b]
      congr 1
      · by_cases hmeet : max a s.left < min b s.right
        · rw [if_pos hmeet, Serial.pos_sub_pos_of_le base hmeet.le, BitVec.ofNat_add]
          ring
        · rw [if_neg hmeet, Nat.sub_eq_zero_of_le (not_lt.mp hmeet), add_zero]
      · omega

theorem takeWhile_dropWhile_map (hl : SpansNear w l) (ha : Near w a) :
    (l.map (toRange base)).takeWhile (fun cur => Serial.lt cur.right (pos base a)) =
        (l.takeWhile fun s => decide (s.right < a)).map (toRange base) ∧
      (l.map (toRange base)).dropWhile (fun cur => Serial.lt cur.right (pos base a)) =
        (l.dropWhile fun s => decide (s.right < a)).map (toRange base) := by
  induction l with
  | nil => exact ⟨rfl, rfl⟩
  | cons s rest ih =>
    have hs := lt_pos base (hl s (by simp)).2 ha
    have hrest := ih fun t ht => hl t (by simp [ht])
    by_cases h : s.right < a <;> simp [hs, h, hrest]

/-- `range_insert` either fails, and then only the allocator has been asked, or inserts the span,
returns the number of positions added and accounts for the nodes. -/
theorem rangeInsert_cases (base : Seq) (tp : Scoreboard) {lo : Nat} (hsep : Separated lo l)
    (hl : SpansNear w l) (ha : Near w a) (hb : Near w b) (hab : a < b)
    (hcount : l.length ≤ tp.rangeCount) (hcap : tp.rangeCount ≤ tcpSackScoreMaxRanges) :
    (∃ env, rangeInsert tp (l.map (toRange base)) (pos base a) (pos base b) =
        (rangeInsertFailed, l.map (toRange base), { tp with env := env })) ∨
      ∃ env count, rangeInsert tp (l.map (toRange base)) (pos base a) (pos base b) =
          (BitVec.ofNat 32 (added a b l), (Spans.insert a b l).map (toRange base),
            { tp with env := env, rangeCount := count }) ∧
        count + l.length = tp.rangeCount + (Spans.insert a b l).length ∧
        count ≤ tcpSackScoreMaxRanges := by
  have hdrop : SpansNear w (l.dropWhile fun s => decide (s.right < a)) :=
    fun s hs => hl s ((dropWhile_sublist _).mem hs)
  have hlen := length_insert (a := a) (b := b) (l := l)
  have hnew : pos base b - pos base a -
      BitVec.ofNat 32 (absorb a b (l.dropWhile fun s => decide (s.right < a)) a b).held =
        BitVec.ofNat 32 (added a b l) := by
    rw [Serial.pos_sub_pos_of_le base hab.le, sub_eq_iff_eq_add, ← BitVec.ofNat_add, added,
      Nat.sub_add_cancel (absorb_held_le hsep)]
  obtain ⟨htake, hleft⟩ := takeWhile_dropWhile_map hl ha
  rw [rangeInsert, htake, hleft, rangeMerge_map hdrop ha hb ha hb]
  simp only [zero_add, hnew]
  by_cases hmerged : (absorb a b (l.dropWhile fun s => decide (s.right < a)) a b).merged = 0
  · rw [if_pos hmerged, rangeAlloc]
    split_ifs with hfull
    · exact .inl ⟨tp.env, rfl⟩
    · generalize tp.env.ask = answer
      obtain ⟨node, env⟩ := answer
      by_cases hnode : node = 0
      · exact .inl ⟨env, by simp [hnode]⟩
      · exact .inr ⟨env, tp.rangeCount + 1, by simp [hnode, Spans.insert, toRange], by omega,
          by omega⟩
  · rw [if_neg hmerged]
    refine .inr ⟨tp.env, _, Prod.ext rfl (Prod.ext ?_ rfl), ?_, ?_⟩
    · simp [Spans.insert, toRange]
    · have hpos : 0 < (Spans.insert a b l).length := by simp [Spans.insert]
      omega
    · omega

/-- `range_list_trim` clips the spans. -/
theorem rangeListTrim_map (base : Seq) (hl : SpansNear w l) (ha : Near w a) (hb : Near w b) :
    rangeListTrim (pos base a) (pos base b) (l.map (toRange base)) =
      (clip a b l).map (toRange base) := by
  rw [rangeListTrim, clip, filterMap_map, map_filterMap]
  refine filterMap_congr fun s hs => ?_
  obtain ⟨hsl, hsr⟩ := hl s hs
  simp only [Function.comp_apply, rangeTrim, toRange_left, toRange_right, lt_pos base hsl hb,
    lt_pos base ha hsr, ite_lt_eq_max hsl ha, ite_seqGt_eq_min hsr hb]
  by_cases hmeet : s.left < b ∧ a < s.right
  · simp [hmeet, toRange]
  · rw [not_and_or] at hmeet
    rcases hmeet with h | h <;> simp [h]

end SnowTG.Tcp
