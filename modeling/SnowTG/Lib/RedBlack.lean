import Mathlib

/-!
# Red-black trees with a path to the root

A tree is worked on at one place: a subtree in focus and the frames from its
parent up to the root.  The mirrored halves of the balancing loops are one
definition here, with the side of the focus as a parameter.  Whatever the
colours are, insertion and removal change the in-order sequence by exactly one
element.
-/

namespace SnowTG.Lib.RedBlack

open List

universe u

variable {α : Type u} {x y : α} {pre rest : List α} {goLeft : α → Bool}

inductive Color where
  | red
  | black
  deriving DecidableEq, Repr

inductive Side where
  | left
  | right
  deriving DecidableEq, Repr

def Side.flip : Side → Side
  | .left => .right
  | .right => .left

inductive Tree (α : Type u) where
  | leaf
  | node (color : Color) (left : Tree α) (value : α) (right : Tree α)
  deriving DecidableEq, Repr

/-- The in-order sequence. -/
def Tree.inorder : Tree α → List α
  | .leaf => []
  | .node _ l x r => l.inorder ++ x :: r.inorder

/-- A missing node is black. -/
def Tree.color : Tree α → Color
  | .leaf => .black
  | .node c _ _ _ => c

def Tree.paint (c : Color) : Tree α → Tree α
  | .leaf => .leaf
  | .node _ l x r => .node c l x r

/-- A node with `t` on the given side and `other` on the other one. -/
def join (side : Side) (c : Color) (t : Tree α) (x : α) (other : Tree α) : Tree α :=
  match side with
  | .left => .node c t x other
  | .right => .node c other x t

/-- The child on the given side of a node with these children. -/
def pick (side : Side) (l r : Tree α) : Tree α :=
  match side with
  | .left => l
  | .right => r

/-- The parent of the focus: on which side the focus is, and the rest of the node. -/
structure Frame (α : Type u) where
  side : Side
  color : Color
  value : α
  other : Tree α
  deriving DecidableEq, Repr

/-- The frames from the parent of the focus up to the root. -/
abbrev Path (α : Type u) := List (Frame α)

/-- The whole tree. -/
def plug (t : Tree α) : Path α → Tree α
  | [] => t
  | f :: rest => plug (join f.side f.color t f.value f.other) rest

/-- What comes before the focus in the in-order sequence. -/
def Path.before : Path α → List α
  | [] => []
  | f :: rest =>
    match f.side with
    | .left => Path.before rest
    | .right => Path.before rest ++ (f.other.inorder ++ [f.value])

/-- What comes behind the focus in the in-order sequence. -/
def Path.after : Path α → List α
  | [] => []
  | f :: rest =>
    match f.side with
    | .left => f.value :: f.other.inorder ++ Path.after rest
    | .right => Path.after rest

@[simp] theorem inorder_paint (c : Color) (t : Tree α) : (t.paint c).inorder = t.inorder := by
  cases t <;> rfl

theorem inorder_plug (t : Tree α) (path : Path α) :
    (plug t path).inorder = Path.before path ++ t.inorder ++ Path.after path := by
  induction path generalizing t with
  | nil => simp [plug, Path.before, Path.after]
  | cons f rest ih =>
    rw [plug, ih]
    cases hside : f.side with
    | left | right => simp [join, Tree.inorder, Path.before, Path.after, hside]

variable {t t' : Tree α} {path : Path α}

/-- Subtrees with the same sequence are interchangeable in a tree. -/
theorem inorder_plug_congr (h : t.inorder = t'.inorder) :
    (plug t path).inorder = (plug t' path).inorder := by
  rw [inorder_plug, inorder_plug, h]

variable {c : Color}

theorem inorder_join_congr {o o' : Tree α} {side : Side} {c' : Color} (ht : t.inorder = t'.inorder)
    (ho : o.inorder = o'.inorder) :
    (join side c t x o).inorder = (join side c' t' x o').inorder := by
  cases side <;> simp [join, Tree.inorder, ht, ho]

/-- Two levels of a tree with the focus below, and the same nodes rotated. -/
theorem inorder_rotate (side : Side) (c c' d d' : Color) (t : Tree α) (x y : α) (a b : Tree α) :
    (join side c (join side d t x a) y b).inorder =
      (join side c' t x (join side d' a y b)).inorder := by
  cases side <;> simp [join, Tree.inorder]

/-- The inner grandchild comes up. -/
theorem inorder_rotate_inner (side : Side) (c c' d d' e e' : Color) (l r : Tree α) (x y z : α)
    (a b : Tree α) :
    (join side c (join side.flip d (.node e l x r) y a) z b).inorder =
      (join side c' (join side.flip d' (pick side l r) y a) x
        (join side e' (pick side.flip l r) z b)).inorder := by
  cases side <;> simp [join, pick, Side.flip, Tree.inorder]

/-- Both rotations for a focus on the inner side: it comes up between parent and grandparent. -/
def liftInner (parent grand : Frame α) : Tree α → Tree α
  | .leaf => plug .leaf [parent, grand]
  | .node _ l x r =>
    join grand.side .black
      (join grand.side.flip .red (pick grand.side l r) parent.value parent.other) x
      (join grand.side .red (pick grand.side.flip l r) grand.value grand.other)

/-- Restore the colours above a freshly linked red node. -/
def insertColor : Tree α → Path α → Tree α
  | t, [] => t.paint .black
  | t, [parent] => (plug t [parent]).paint .black
  | t, parent :: grand :: rest =>
    if parent.color = .black then (plug t (parent :: grand :: rest)).paint .black
    else if grand.other.color = .red then
      -- a red uncle: recolour and go on at the grandparent
      insertColor
        (join grand.side .red (join parent.side .black t parent.value parent.other) grand.value
          (grand.other.paint .black)) rest
    else if parent.side = grand.side then
      (plug (join grand.side .black t parent.value
        (join grand.side .red parent.other grand.value grand.other)) rest).paint .black
    else (plug (liftInner parent grand t) rest).paint .black

theorem Side.eq_flip {a b : Side} (h : a ≠ b) : a = b.flip := by
  cases a <;> cases b <;> simp_all [Side.flip]

theorem inorder_liftInner {parent grand : Frame α} (h : parent.side ≠ grand.side) (t : Tree α) :
    (liftInner parent grand t).inorder = (plug t [parent, grand]).inorder := by
  cases t with
  | leaf => rfl
  | node c l x r =>
    rw [plug, plug, plug, Side.eq_flip h]
    exact (inorder_rotate_inner _ _ _ _ _ _ _ _ _ _ _ _ _ _).symm

theorem inorder_insertColor (t : Tree α) (path : Path α) :
    (insertColor t path).inorder = (plug t path).inorder := by
  induction path using List.twoStepInduction generalizing t with
  | nil => rw [insertColor, inorder_paint, plug]
  | singleton parent => rw [insertColor, inorder_paint]
  | cons_cons parent grand rest ih =>
    rw [insertColor]
    split_ifs with hblack huncle hside
    · rw [inorder_paint]
    · rw [ih]
      apply inorder_plug_congr
      apply inorder_join_congr
      · exact inorder_join_congr rfl rfl
      · exact inorder_paint .black grand.other
    · rw [inorder_paint]
      apply inorder_plug_congr
      rw [hside]
      exact (inorder_rotate _ _ _ _ _ _ _ _ _ _).symm
    · rw [inorder_paint]
      exact inorder_plug_congr (inorder_liftInner hside t)

/-- The leaf position a search ends at, as the path to it. -/
def descend (goLeft : α → Bool) : Tree α → Path α → Path α
  | .leaf, path => path
  | .node c l x r, path =>
    if goLeft x then descend goLeft l (⟨.left, c, x, r⟩ :: path)
    else descend goLeft r (⟨.right, c, x, l⟩ :: path)

/-- Link a new red node where the search ends, and restore the colours. -/
def insert (goLeft : α → Bool) (x : α) (t : Tree α) : Tree α :=
  insertColor (.node .red .leaf x .leaf) (descend goLeft t [])

variable {l r : Tree α}

/-- A cut of the sequence of a node goes through its right or through its left subtree. -/
theorem inorder_node_split (h : (Tree.node c l x r).inorder = pre ++ rest) :
    (∃ pre', pre = l.inorder ++ x :: pre' ∧ r.inorder = pre' ++ rest) ∨
      ∃ rest', l.inorder = pre ++ rest' ∧ rest = rest' ++ x :: r.inorder := by
  rcases append_eq_append_iff.mp h with ⟨mid, hpre, hcons⟩ | ⟨mid, hl, hrest⟩
  · cases mid with
    | nil => exact .inr ⟨[], by simpa using hpre.symm, by simpa using hcons.symm⟩
    | cons y mid =>
      obtain ⟨rfl, hr⟩ := cons_eq_cons.mp hcons
      exact .inl ⟨mid, hpre, hr⟩
  · exact .inr ⟨mid, hl, hrest⟩

/-- A search that tells `pre` from `rest` ends between them. -/
theorem descend_spec (path : Path α) (hsplit : t.inorder = pre ++ rest)
    (hpre : ∀ x ∈ pre, goLeft x = false) (hrest : ∀ x ∈ rest, goLeft x = true) :
    Path.before (descend goLeft t path) = Path.before path ++ pre ∧
      Path.after (descend goLeft t path) = rest ++ Path.after path := by
  induction t generalizing path pre rest with
  | leaf =>
    obtain ⟨rfl, rfl⟩ := append_eq_nil_iff.mp hsplit.symm
    simp [descend]
  | node c l x r ihl ihr =>
    rw [descend]
    rcases inorder_node_split hsplit with ⟨pre', rfl, hr⟩ | ⟨rest', hl, rfl⟩
    · rw [if_neg (by simp [hpre x (by simp)])]
      obtain ⟨hb, ha⟩ := ihr (⟨.right, c, x, l⟩ :: path) hr
        (fun z hz => hpre z (by simp [hz])) hrest
      exact ⟨by simpa [Path.before] using hb, by simpa [Path.after] using ha⟩
    · rw [if_pos (hrest x (by simp))]
      obtain ⟨hb, ha⟩ := ihl (⟨.left, c, x, r⟩ :: path) hl hpre
        (fun z hz => hrest z (by simp [hz]))
      exact ⟨by simpa [Path.before] using hb, by simpa [Path.after] using ha⟩

/-- Insertion puts the new element between what the search keeps left and what it keeps right. -/
theorem inorder_insert (hsplit : t.inorder = pre ++ rest) (hpre : ∀ y ∈ pre, goLeft y = false)
    (hrest : ∀ y ∈ rest, goLeft y = true) : (insert goLeft x t).inorder = pre ++ x :: rest := by
  obtain ⟨hb, ha⟩ := descend_spec [] hsplit hpre hrest
  rw [insert, inorder_insertColor, inorder_plug, hb, ha]
  simp [Tree.inorder, Path.before, Path.after]

/-- The outcome of one round of the repair after a removal: finished, or the lack of a black node
has moved up to the parent. -/
inductive Repair (α : Type u) where
  | done (t : Tree α)
  | up (t : Tree α)

/-- The subtree a round leaves at the place of the parent. -/
def Repair.tree : Repair α → Tree α
  | .done t => t
  | .up t => t

/-- A round of the repair at the parent, with a sibling that is not red: the focus `t` lacks a
black node. -/
def repairAt (t : Tree α) (parent : Frame α) : Repair α :=
  match parent.other with
  | .leaf => .up (join parent.side parent.color t parent.value .leaf)
  | .node c l x r =>
    let near := pick parent.side l r
    let far := pick parent.side.flip l r
    if near.color = .black ∧ far.color = .black then
      .up (join parent.side parent.color t parent.value (.node .red l x r))
    else if far.color = .black then
      match near with
      | .leaf => .up (join parent.side parent.color t parent.value (.node c l x r))
      | .node _ nl y nr =>
        .done (join parent.side parent.color
          (join parent.side .black t parent.value (pick parent.side nl nr)) y
          (join parent.side .black (pick parent.side.flip nl nr) x far))
    else
      .done (join parent.side parent.color (join parent.side .black t parent.value near) x
        (far.paint .black))

/-- Restore the black heights above a focus that lacks a black node. -/
def eraseFixup : Tree α → Path α → Tree α
  | t, [] => t.paint .black
  | t, parent :: rest =>
    if t.color = .red then plug (t.paint .black) (parent :: rest)
    else
      match parent.other with
      | .node .red l x r =>
        -- a red sibling comes up; the parent is red then and ends the repair
        let near := pick parent.side l r
        let top : Frame α := ⟨parent.side, .black, x, pick parent.side.flip l r⟩
        match repairAt t { parent with color := .red, other := near } with
        | .done t' => (plug t' (top :: rest)).paint .black
        | .up t' => plug (t'.paint .black) (top :: rest)
      | _ =>
        match repairAt t parent with
        | .done t' => (plug t' rest).paint .black
        | .up t' => eraseFixup t' rest

theorem inorder_join_node (side : Side) (c d : Color) (t : Tree α) (y : α) (l : Tree α) (x : α)
    (r : Tree α) :
    (join side c t y (.node d l x r)).inorder =
      (join side .black (join side .black t y (pick side l r)) x (pick side.flip l r)).inorder := by
  cases side <;> simp [join, pick, Side.flip, Tree.inorder]

theorem inorder_repairAt (t : Tree α) (parent : Frame α) :
    (repairAt t parent).tree.inorder =
      (join parent.side parent.color t parent.value parent.other).inorder := by
  rw [repairAt]
  cases hother : parent.other with
  | leaf => rfl
  | node c l x r =>
    simp only
    split_ifs with hblack hfar
    · exact inorder_join_congr rfl rfl
    · rw [inorder_join_node]
      cases hnear : pick parent.side l r with
      | leaf =>
        simp only [Repair.tree]
        rw [inorder_join_node, hnear]
      | node e nl y nr =>
        simp only [Repair.tree]
        cases parent.side <;> simp [join, pick, Side.flip, Tree.inorder]
    · rw [inorder_join_node]
      exact inorder_join_congr (inorder_join_congr rfl rfl) (inorder_paint _ _)

theorem inorder_eraseFixup (t : Tree α) (path : Path α) :
    (eraseFixup t path).inorder = (plug t path).inorder := by
  induction path generalizing t with
  | nil => rw [eraseFixup, inorder_paint, plug]
  | cons parent rest ih =>
    rw [eraseFixup]
    split_ifs with hred
    · exact inorder_plug_congr (inorder_paint _ _)
    · rw [plug]
      have hplain : (match repairAt t parent with
          | .done t' => (plug t' rest).paint .black
          | .up t' => eraseFixup t' rest).inorder =
          (plug (join parent.side parent.color t parent.value parent.other) rest).inorder := by
        have hround := inorder_repairAt t parent
        cases hrepair : repairAt t parent with
        | done t' =>
          rw [hrepair] at hround
          simp only [inorder_paint]
          exact inorder_plug_congr hround
        | up t' =>
          rw [hrepair] at hround
          simp only [ih]
          exact inorder_plug_congr hround
      cases hother : parent.other with
      | leaf =>
        rw [hother] at hplain
        exact hplain
      | node c l x r =>
        cases c with
        | black =>
          rw [hother] at hplain
          exact hplain
        | red =>
          have hround' := inorder_repairAt t
            { parent with color := .red, other := pick parent.side l r }
          have hlifted : ∀ t' : Tree α, t'.inorder =
              (join parent.side .red t parent.value (pick parent.side l r)).inorder →
              (join parent.side .black t' x (pick parent.side.flip l r)).inorder =
                (join parent.side parent.color t parent.value (.node .red l x r)).inorder := by
            intro t' ht'
            rw [inorder_join_node]
            refine inorder_join_congr (ht'.trans ?_) rfl
            exact inorder_join_congr rfl rfl
          simp only
          cases hrepair : repairAt t
              { parent with color := .red, other := pick parent.side l r } with
          | done t' =>
            rw [hrepair] at hround'
            simp only [inorder_paint, plug]
            exact inorder_plug_congr (hlifted t' hround')
          | up t' =>
            rw [hrepair] at hround'
            simp only [plug]
            exact inorder_plug_congr (hlifted _ ((inorder_paint _ _).trans hround'))

/-- The leftmost node of a tree: its colour, its value, its right subtree and the frames down to
it. -/
def popMin : Tree α → Option (Color × α × Tree α × Path α)
  | .leaf => none
  | .node c l x r =>
    match popMin l with
    | none => some (c, x, r, [])
    | some (mc, m, mr, path) => some (mc, m, mr, path ++ [⟨.left, c, x, r⟩])

/-- Remove the node with these children from the tree around it. -/
def eraseAt (c : Color) (l r : Tree α) (path : Path α) : Tree α :=
  match l, r with
  | .leaf, r => if c = .black then eraseFixup r path else plug r path
  | l, .leaf => if c = .black then eraseFixup l path else plug l path
  | l, r =>
    match popMin r with
    | none => plug l path
    | some (mc, m, mr, spine) =>
      -- the successor takes the place and the colour of the removed node
      let path' := spine ++ ⟨.right, c, m, l⟩ :: path
      if mc = .black then eraseFixup mr path' else plug mr path'

/-- Where an element is: the colour and the children of its node, and the frames down to it. -/
def locate [DecidableEq α] (y : α) : Tree α → Option (Color × Tree α × Tree α × Path α)
  | .leaf => none
  | .node c l x r =>
    if x = y then some (c, l, r, [])
    else
      match locate y l with
      | some (yc, yl, yr, path) => some (yc, yl, yr, path ++ [⟨.left, c, x, r⟩])
      | none =>
        match locate y r with
        | some (yc, yl, yr, path) => some (yc, yl, yr, path ++ [⟨.right, c, x, l⟩])
        | none => none

/-- Remove an element. -/
def erase [DecidableEq α] (y : α) (t : Tree α) : Tree α :=
  match locate y t with
  | none => t
  | some (c, l, r, path) => eraseAt c l r path

theorem plug_append (t : Tree α) (path above : Path α) :
    plug t (path ++ above) = plug (plug t path) above := by
  induction path generalizing t with
  | nil => rfl
  | cons f rest ih => rw [cons_append, plug, ih, plug]

theorem popMin_eq_none (h : popMin t = none) : t = .leaf := by
  cases t with
  | leaf => rfl
  | node c l x r =>
    rw [popMin] at h
    cases hl : popMin l with
    | none | some found => simp [hl] at h

theorem popMin_spec {mr : Tree α} {mc : Color} {m : α} (h : popMin t = some (mc, m, mr, path)) :
    t.inorder = m :: (plug mr path).inorder := by
  induction t generalizing path with
  | leaf => simp [popMin] at h
  | node c l x r ihl ihr =>
    rw [popMin] at h
    cases hl : popMin l with
    | none =>
      rw [hl] at h
      obtain ⟨rfl, rfl, rfl, rfl⟩ : c = mc ∧ x = m ∧ r = mr ∧ [] = path := by simpa using h
      rw [popMin_eq_none hl]
      rfl
    | some found =>
      obtain ⟨fc, fm, fr, fpath⟩ := found
      rw [hl] at h
      obtain ⟨rfl, rfl, rfl, rfl⟩ :
          fc = mc ∧ fm = m ∧ fr = mr ∧ fpath ++ [⟨.left, c, x, r⟩] = path := by simpa using h
      rw [Tree.inorder, ihl hl, plug_append]
      rfl

theorem inorder_eraseAt (c : Color) (l r : Tree α) (path : Path α) :
    (eraseAt c l r path).inorder =
      Path.before path ++ (l.inorder ++ r.inorder) ++ Path.after path := by
  have hone : ∀ t : Tree α,
      (if c = .black then eraseFixup t path else plug t path).inorder =
        Path.before path ++ t.inorder ++ Path.after path := by
    intro t
    split_ifs
    · rw [inorder_eraseFixup, inorder_plug]
    · rw [inorder_plug]
  cases l with
  | leaf => simpa [eraseAt, Tree.inorder] using hone r
  | node lc ll lx lr =>
    cases r with
    | leaf => simpa [eraseAt, Tree.inorder] using hone (.node lc ll lx lr)
    | node rc rl rx rr =>
      cases hmin : popMin (.node rc rl rx rr) with
      | none => exact absurd (popMin_eq_none hmin) (by simp)
      | some found =>
        obtain ⟨mc, m, mr, spine⟩ := found
        have hspine : ∀ t : Tree α, t.inorder = (plug mr (spine ++
            ⟨.right, c, m, .node lc ll lx lr⟩ :: path)).inorder →
            t.inorder = Path.before path ++ ((Tree.node lc ll lx lr).inorder ++
              (Tree.node rc rl rx rr).inorder) ++ Path.after path := by
          intro t ht
          rw [ht, plug_append, plug, inorder_plug, popMin_spec hmin]
          simp [join, Tree.inorder]
        apply hspine
        simp only [eraseAt, hmin]
        split_ifs
        · exact inorder_eraseFixup _ _
        · rfl

theorem locate_spec [DecidableEq α] (h : locate y t = some (c, l, r, path)) :
    t = plug (.node c l y r) path := by
  induction t generalizing path with
  | leaf => simp [locate] at h
  | node tc tl x tr ihl ihr =>
    rw [locate] at h
    split_ifs at h with heq
    · obtain ⟨rfl, rfl, rfl, rfl⟩ : tc = c ∧ tl = l ∧ tr = r ∧ [] = path := by simpa using h
      rw [heq]
      rfl
    · cases hl : locate y tl with
      | some found =>
        obtain ⟨fc, fl, fr, fpath⟩ := found
        rw [hl] at h
        obtain ⟨rfl, rfl, rfl, rfl⟩ : fc = c ∧ fl = l ∧ fr = r ∧
            fpath ++ [⟨.left, tc, x, tr⟩] = path := by simpa using h
        rw [plug_append, ← ihl hl]
        rfl
      | none =>
        cases hr : locate y tr with
        | some found =>
          obtain ⟨fc, fl, fr, fpath⟩ := found
          rw [hl, hr] at h
          obtain ⟨rfl, rfl, rfl, rfl⟩ : fc = c ∧ fl = l ∧ fr = r ∧
              fpath ++ [⟨.right, tc, x, tl⟩] = path := by simpa using h
          rw [plug_append, ← ihr hr]
          rfl
        | none => simp [hl, hr] at h

theorem locate_eq_none [DecidableEq α] (h : locate y t = none) : y ∉ t.inorder := by
  induction t with
  | leaf => simp [Tree.inorder]
  | node c l x r ihl ihr =>
    rw [locate] at h
    split_ifs at h with heq
    cases hl : locate y l with
    | some found => simp [hl] at h
    | none =>
      cases hr : locate y r with
      | some found => simp [hl, hr] at h
      | none =>
        have hne : ¬y = x := fun hyx => heq hyx.symm
        simp [Tree.inorder, ihl hl, ihr hr, hne]

/-- In a sequence without repetitions an element is found at its one place. -/
theorem locate_split [DecidableEq α] (hsplit : t.inorder = pre ++ y :: rest)
    (hnodup : t.inorder.Nodup) :
    ∃ c l r path, locate y t = some (c, l, r, path) ∧ Path.before path ++ l.inorder = pre ∧
      r.inorder ++ Path.after path = rest := by
  cases hloc : locate y t with
  | none =>
    refine absurd ?_ (locate_eq_none hloc)
    rw [hsplit]
    simp
  | some found =>
    obtain ⟨c, l, r, path⟩ := found
    refine ⟨c, l, r, path, rfl, ?_⟩
    have htree := congrArg Tree.inorder (locate_spec hloc)
    rw [inorder_plug, Tree.inorder] at htree
    have hcut : (Path.before path ++ l.inorder) ++ y :: (r.inorder ++ Path.after path) =
        pre ++ y :: rest := by
      rw [← hsplit, htree]
      simp
    rw [hsplit, ← hcut] at hnodup
    have hbefore : y ∉ Path.before path ++ l.inorder := fun hmem =>
      (nodup_append.mp hnodup).2.2 y hmem y (by simp) rfl
    have hafter : y ∉ r.inorder ++ Path.after path :=
      (nodup_cons.mp (nodup_append.mp hnodup).2.1).1
    obtain ⟨hleft, -, hright⟩ := (append_cons_inj_of_notMem hbefore hafter).mp hcut
    exact ⟨hleft, hright⟩

/-- Removal takes exactly the element out of a sequence without repetitions. -/
theorem inorder_erase [DecidableEq α] (hsplit : t.inorder = pre ++ y :: rest)
    (hnodup : t.inorder.Nodup) : (erase y t).inorder = pre ++ rest := by
  obtain ⟨c, l, r, path, hloc, hleft, hright⟩ := locate_split hsplit hnodup
  rw [erase, hloc]
  simp only [inorder_eraseAt]
  rw [← hleft, ← hright]
  simp

/-- The rightmost element. -/
def maximum : Tree α → Option α
  | .leaf => none
  | .node _ _ x .leaf => some x
  | .node _ _ _ r => maximum r

/-- The first ancestor whose right subtree holds the focus. -/
def climbPrev : Path α → Option α
  | [] => none
  | f :: rest => if f.side = .right then some f.value else climbPrev rest

/-- The element before a given one. -/
def prev [DecidableEq α] (y : α) (t : Tree α) : Option α :=
  match locate y t with
  | none => none
  | some (_, .leaf, _, path) => climbPrev path
  | some (_, l, _, _) => maximum l

/-- Search for the first element that is not below a bound; the last candidate is carried along. -/
def lowerBound (below : α → Bool) : Tree α → Option α → Option α
  | .leaf, result => result
  | .node _ l x r, result =>
    if below x then lowerBound below r result else lowerBound below l (some x)

theorem maximum_eq (t : Tree α) : maximum t = t.inorder.getLast? := by
  induction t with
  | leaf => rfl
  | node c l x r ihl ihr =>
    cases r with
    | leaf => simp [maximum, Tree.inorder]
    | node rc rl rx rr =>
      have hne : (Tree.node rc rl rx rr).inorder ≠ [] := by simp [Tree.inorder]
      have hlast : (l.inorder ++ [x] ++ (Tree.node rc rl rx rr).inorder).getLast? =
          (Tree.node rc rl rx rr).inorder.getLast? := List.getLast?_append_of_ne_nil _ hne
      rw [maximum, ihr, ← hlast]
      · simp [Tree.inorder]
      · simp

theorem climbPrev_eq (path : Path α) : climbPrev path = (Path.before path).getLast? := by
  induction path with
  | nil => rfl
  | cons f rest ih =>
    rw [climbPrev, ih]
    cases hside : f.side with
    | left | right => simp [Path.before, hside]

/-- The predecessor in a sequence without repetitions. -/
theorem prev_eq [DecidableEq α] (hsplit : t.inorder = pre ++ y :: rest) (hnodup : t.inorder.Nodup) :
    prev y t = pre.getLast? := by
  obtain ⟨c, l, r, path, hloc, hleft, -⟩ := locate_split hsplit hnodup
  rw [prev, hloc, ← hleft]
  cases l with
  | leaf => simp [climbPrev_eq, Tree.inorder]
  | node lc ll lx lr =>
    have hne : (Tree.node lc ll lx lr).inorder ≠ [] := by simp [Tree.inorder]
    rw [List.getLast?_append_of_ne_nil _ hne]
    exact maximum_eq _

/-- A search that tells `pre` from `rest` finds the first element of `rest`. -/
theorem lowerBound_eq {below : α → Bool} {result : Option α} (hsplit : t.inorder = pre ++ rest)
    (hpre : ∀ x ∈ pre, below x = true) (hrest : ∀ x ∈ rest, below x = false) :
    lowerBound below t result = rest.head?.or result := by
  induction t generalizing pre rest result with
  | leaf =>
    obtain ⟨rfl, rfl⟩ := append_eq_nil_iff.mp hsplit.symm
    rfl
  | node c l x r ihl ihr =>
    rw [lowerBound]
    rcases inorder_node_split hsplit with ⟨pre', rfl, hr⟩ | ⟨rest', hl, rfl⟩
    · rw [if_pos (hpre x (by simp))]
      exact ihr hr (fun z hz => hpre z (by simp [hz])) hrest
    · rw [if_neg (by simp [hrest x (by simp)])]
      rw [ihl hl hpre (fun z hz => hrest z (by simp [hz]))]
      cases rest' <;> simp

end SnowTG.Lib.RedBlack
