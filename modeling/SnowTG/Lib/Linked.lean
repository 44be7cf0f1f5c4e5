import Mathlib

/-!
# Doubly linked lists

Nodes point to their neighbours.  A segment is a list of nodes chained in both
directions between two outer neighbours.  Appending, pushing to the front and
unlinking change the links of at most three nodes; what they do to the segment
they work on, and that other segments stay, is proved once.
-/

namespace SnowTG.Lib.Linked

open Function List

universe u

/-- The neighbours of a node. -/
structure Links (α : Type u) where
  prev : Option α
  next : Option α
  deriving DecidableEq, Repr

variable {α : Type u}

/-- The nodes of a list, chained in both directions between `prev` and `next`. -/
def Segment (links : α → Links α) : Option α → List α → Option α → Prop
  | _, [], _ => True
  | prev, a :: rest, next =>
    links a = ⟨prev, rest.head?.or next⟩ ∧ Segment links (some a) rest next

/-- The nodes met by following `next` pointers, at most `fuel` of them. -/
def follow (links : α → Links α) : Nat → Option α → List α
  | 0, _ => []
  | _ + 1, none => []
  | fuel + 1, some a => a :: follow links fuel (links a).next

variable {links links' : α → Links α} {prev next : Option α} {l r : List α} {a : α}

theorem Segment.congr (h : Segment links prev l next) (hsame : ∀ a ∈ l, links' a = links a) :
    Segment links' prev l next := by
  induction l generalizing prev with
  | nil => trivial
  | cons a rest ih =>
    refine ⟨(hsame a mem_cons_self).trans h.1, ih h.2 ?_⟩
    exact fun b hb => hsame b (mem_cons_of_mem a hb)

theorem segment_append :
    Segment links prev (l ++ r) next ↔
      Segment links prev l (r.head?.or next) ∧ Segment links (l.getLast?.or prev) r next := by
  induction l generalizing prev with
  | nil => simp [Segment]
  | cons a rest ih =>
    have hlast : (a :: rest).getLast?.or prev = rest.getLast?.or (some a) := by
      cases rest with
      | nil => rfl
      | cons b others => simp [List.getLast?_cons]
    rw [cons_append, Segment, Segment, ih, hlast, List.head?_append, Option.or_assoc, and_assoc]

theorem follow_segment {fuel : Nat} (h : Segment links prev l none) (hfuel : l.length ≤ fuel) :
    follow links fuel l.head? = l := by
  induction l generalizing prev fuel with
  | nil =>
    cases fuel with
    | zero => rfl
    | succ fuel => rfl
  | cons a rest ih =>
    cases fuel with
    | zero => simp at hfuel
    | succ fuel =>
      rw [List.head?_cons, follow, h.1, Option.or_none, ih h.2 (by simpa using hfuel)]

/-- The links of a node inside a list. -/
theorem Segment.links_mid (h : Segment links none (l ++ a :: r) none) :
    links a = ⟨l.getLast?, r.head?⟩ := by
  have hmid := (segment_append.mp h).2.1
  rwa [Option.or_none, Option.or_none] at hmid

section Update

variable [DecidableEq α] {node value : Option α} {b : α}

/-- Write the `next` pointer of a node, if there is one. -/
def setNext (links : α → Links α) (node value : Option α) : α → Links α :=
  match node with
  | none => links
  | some a => update links a { links a with next := value }

/-- Write the `prev` pointer of a node, if there is one. -/
def setPrev (links : α → Links α) (node value : Option α) : α → Links α :=
  match node with
  | none => links
  | some a => update links a { links a with prev := value }

theorem setNext_of_ne (h : node ≠ some a) : setNext links node value a = links a := by
  cases node with
  | none => rfl
  | some b => exact update_of_ne (fun heq => h (congrArg some heq.symm)) _ _

theorem setPrev_of_ne (h : node ≠ some a) : setPrev links node value a = links a := by
  cases node with
  | none => rfl
  | some b => exact update_of_ne (fun heq => h (congrArg some heq.symm)) _ _

/-- A new outer neighbour behind the segment. -/
theorem Segment.setNext_last (h : Segment links prev l next) (hnodup : l.Nodup) :
    Segment (setNext links l.getLast? value) prev l value := by
  rcases eq_nil_or_concat' l with rfl | ⟨before, a, rfl⟩
  · trivial
  · have ha : a ∉ before := by
      rw [nodup_append] at hnodup
      exact fun hmem => hnodup.2.2 a hmem a mem_cons_self rfl
    rw [segment_append] at h ⊢
    rw [List.getLast?_concat]
    refine ⟨h.1.congr fun b hb => setNext_of_ne ?_, ?_, trivial⟩
    · rintro ⟨⟩
      exact ha hb
    · rw [setNext, update_self, h.2.1]
      rfl

/-- A new outer neighbour before the segment. -/
theorem Segment.setPrev_head (h : Segment links prev l next) (hnodup : l.Nodup) :
    Segment (setPrev links l.head? value) value l next := by
  cases l with
  | nil => trivial
  | cons a rest =>
    have ha := (nodup_cons.mp hnodup).1
    refine ⟨?_, h.2.congr fun b hb => setPrev_of_ne ?_⟩
    · rw [List.head?_cons, setPrev, update_self, h.1]
    · rintro ⟨⟩
      exact ha hb

/-- Append a node behind `tail`. -/
def appendLinks (links : α → Links α) (tail : Option α) (a : α) : α → Links α :=
  setNext (update links a ⟨tail, none⟩) tail (some a)

/-- Push a node before `head`. -/
def pushLinks (links : α → Links α) (head : Option α) (a : α) : α → Links α :=
  setPrev (update links a ⟨none, head⟩) head (some a)

/-- Join the neighbours of a node and clear its own links. -/
def unlinkLinks (links : α → Links α) (a : α) : α → Links α :=
  update
    (setPrev (setNext links (links a).prev (links a).next) (links a).next (links a).prev)
    a ⟨none, none⟩

theorem Segment.append_node (h : Segment links none l none) (hnodup : l.Nodup) (ha : a ∉ l) :
    Segment (appendLinks links l.getLast? a) none (l ++ [a]) none := by
  have hkept : Segment (update links a ⟨l.getLast?, none⟩) none l none :=
    h.congr fun b hb => update_of_ne (ne_of_mem_of_not_mem hb ha) _ _
  rw [segment_append]
  refine ⟨hkept.setNext_last hnodup, ?_, trivial⟩
  have hlast : l.getLast? ≠ some a := fun heq => ha (mem_of_getLast? heq)
  rw [appendLinks, setNext_of_ne hlast, update_self]
  simp

theorem Segment.push_node (h : Segment links none l none) (hnodup : l.Nodup) (ha : a ∉ l) :
    Segment (pushLinks links l.head? a) none (a :: l) none := by
  have hkept : Segment (update links a ⟨none, l.head?⟩) none l none :=
    h.congr fun b hb => update_of_ne (ne_of_mem_of_not_mem hb ha) _ _
  refine ⟨?_, hkept.setPrev_head hnodup⟩
  have hhead : l.head? ≠ some a := fun heq => ha (mem_of_head? heq)
  rw [pushLinks, setPrev_of_ne hhead, update_self]
  simp

theorem Segment.unlink_node (h : Segment links none (l ++ a :: r) none)
    (hnodup : (l ++ a :: r).Nodup) : Segment (unlinkLinks links a) none (l ++ r) none := by
  have hmid := h.links_mid
  obtain ⟨hl, har, hapart⟩ := nodup_append.mp hnodup
  obtain ⟨ha, hr⟩ := nodup_cons.mp har
  have hal : a ∉ l := fun hmem => hapart a hmem a mem_cons_self rfl
  obtain ⟨hbefore, -, hbehind⟩ := segment_append.mp h
  have hlr : ∀ b ∈ l, b ∉ r := fun b hb hbr => hapart b hb b (mem_cons_of_mem a hbr) rfl
  rw [unlinkLinks, hmid, segment_append, Option.or_none, Option.or_none]
  constructor
  · have hnext : Segment (setNext links l.getLast? r.head?) none l r.head? :=
      hbefore.setNext_last hl
    refine hnext.congr fun b hb => ?_
    rw [update_of_ne (ne_of_mem_of_not_mem hb hal), setPrev_of_ne]
    exact fun heq => hlr b hb (mem_of_head? heq)
  · have hkept : Segment (setNext links l.getLast? r.head?) (some a) r none := by
      refine hbehind.congr fun b hb => setNext_of_ne fun heq => ?_
      exact hlr b (mem_of_getLast? heq) hb
    have hprev : Segment (setPrev (setNext links l.getLast? r.head?) r.head? l.getLast?)
        l.getLast? r none := hkept.setPrev_head hr
    exact hprev.congr fun b hb => update_of_ne (ne_of_mem_of_not_mem hb ha) _ _

/-- Appending leaves the other nodes' links. -/
theorem appendLinks_of_ne {tail : Option α} (ha : b ≠ a) (htail : tail ≠ some b) :
    appendLinks links tail a b = links b := by
  rw [appendLinks, setNext_of_ne htail, update_of_ne ha]

theorem pushLinks_of_ne {head : Option α} (ha : b ≠ a) (hhead : head ≠ some b) :
    pushLinks links head a b = links b := by
  rw [pushLinks, setPrev_of_ne hhead, update_of_ne ha]

theorem unlinkLinks_of_ne (ha : b ≠ a) (hprev : (links a).prev ≠ some b)
    (hnext : (links a).next ≠ some b) : unlinkLinks links a b = links b := by
  rw [unlinkLinks, update_of_ne ha, setPrev_of_ne hnext, setNext_of_ne hprev]

/-- A list that shares no node with another one stays when a node of the other is unlinked. -/
theorem Segment.unlink_apart {other : List α} (h : Segment links prev other next)
    (hlist : Segment links none (l ++ a :: r) none) (hapart : ∀ b ∈ other, b ∉ l ++ a :: r) :
    Segment (unlinkLinks links a) prev other next := by
  have hmid := hlist.links_mid
  refine h.congr fun b hb => unlinkLinks_of_ne ?_ ?_ ?_
  · rintro rfl
    exact hapart b hb (by simp)
  · rw [hmid]
    exact fun heq => hapart b hb (mem_append_left _ (mem_of_getLast? heq))
  · rw [hmid]
    exact fun heq => hapart b hb
      (mem_append_right _ (mem_cons_of_mem a (mem_of_head? heq)))

end Update

end SnowTG.Lib.Linked
