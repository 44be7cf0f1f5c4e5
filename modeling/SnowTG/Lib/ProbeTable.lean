import Mathlib

/-!
# Open addressing with tombstones

A table of `size` cells holds entries for keys.  The probes of a key visit the
cells from its home on, in a circle; an entry may be behind other entries and
behind tombstones, but not behind an empty cell.  A key is looked up by probing
until its entry or an empty cell is met.  An entry is taken out by leaving a
tombstone, and a new entry takes the first tombstone met on the way, if any.
-/

namespace SnowTG.Lib

open Function

universe u v

/-- A cell of a table. -/
inductive Cell (K : Type u) (V : Type v) where
  | empty
  | tomb
  | entry (key : K) (value : V)
  deriving DecidableEq, Repr

/-- What a registration says. -/
inductive Registered where
  | ok
  | inUse
  | full
  deriving DecidableEq, Repr

/-- A table, as a function of the cell's number. -/
abbrev ProbeTable (K : Type u) (V : Type v) := Nat → Cell K V

namespace ProbeTable

variable {K : Type u} {V : Type v} (size : Nat) (home : K → Nat)

/-- The cell of a probe. -/
def slot (key : K) (probe : Nat) : Nat := (home key + probe) % size

section Operations

variable [DecidableEq K] [DecidableEq V]

/-- Register a value for a key, with `left` probes to go and the first tombstone met so far. -/
def registerFrom (t : ProbeTable K V) (key : K) (value : V) :
    (left probe : Nat) → (reuse : Option Nat) → ProbeTable K V × Registered
  | 0, _, none => (t, .full)
  | 0, _, some s => (update t s (.entry key value), .ok)
  | left + 1, probe, reuse =>
    match t (slot size home key probe) with
    | .empty =>
      (update t (reuse.getD (slot size home key probe)) (.entry key value), .ok)
    | .tomb => registerFrom t key value left (probe + 1)
        (reuse <|> some (slot size home key probe))
    | .entry other held =>
      if other = key then (t, if held = value then .ok else .inUse)
      else registerFrom t key value left (probe + 1) reuse

/-- Take a value of a key out of the table. -/
def unregisterFrom (t : ProbeTable K V) (key : K) (value : V) :
    (left probe : Nat) → ProbeTable K V
  | 0, _ => t
  | left + 1, probe =>
    match t (slot size home key probe) with
    | .empty => t
    | .tomb => unregisterFrom t key value left (probe + 1)
    | .entry other held =>
      if other = key ∧ held = value then update t (slot size home key probe) .tomb
      else unregisterFrom t key value left (probe + 1)

/-- Find the value of a key. -/
def lookupFrom (t : ProbeTable K V) (key : K) : (left probe : Nat) → Option V
  | 0, _ => none
  | left + 1, probe =>
    match t (slot size home key probe) with
    | .empty => none
    | .tomb => lookupFrom t key left (probe + 1)
    | .entry other held =>
      if other = key then some held else lookupFrom t key left (probe + 1)

def register (t : ProbeTable K V) (key : K) (value : V) : ProbeTable K V × Registered :=
  registerFrom size home t key value size 0 none

def unregister (t : ProbeTable K V) (key : K) (value : V) : ProbeTable K V :=
  unregisterFrom size home t key value size 0

def lookup (t : ProbeTable K V) (key : K) : Option V := lookupFrom size home t key size 0

end Operations

/-- The entry of the key is in the cell of probe `d`, and no other cell has one.  No cell before it is
empty but `hole`, which is being filled. -/
structure Placed (hole : Option Nat) (t : ProbeTable K V) (key : K) (value : V) (d : Nat) :
    Prop where
  lt : d < size
  here : t (slot size home key d) = .entry key value
  path : ∀ j < d, t (slot size home key j) = .empty → hole = some (slot size home key j)
  sole : ∀ s held, t s = .entry key held → s = slot size home key d

/-- Every entry is where the probes of its key find it. -/
def Sound (hole : Option Nat) (t : ProbeTable K V) : Prop :=
  ∀ s key value, t s = .entry key value → ∃ d, Placed size home hole t key value d

/-- The cell can take an entry. -/
def Vacant (t : ProbeTable K V) (s : Nat) : Prop := t s = .empty ∨ t s = .tomb

/-- A new entry of the key may go to the cell `s`: its probes come to it before any that is empty. -/
structure Target (t : ProbeTable K V) (key : K) (s : Nat) : Prop where
  probe : ∃ d < size, s = slot size home key d ∧ ∀ j < d, t (slot size home key j) ≠ .empty
  vacant : Vacant t s
  absent : ∀ s held, t s ≠ .entry key held

/-- What a registration knows after some probes: the first tombstone it met. -/
structure Probed (t : ProbeTable K V) (key : K) (probe : Nat) (reuse : Option Nat) : Prop where
  path : ∀ j < probe, t (slot size home key j) ≠ .empty
  differ : ∀ j < probe, ∀ held, t (slot size home key j) ≠ .entry key held
  untouched : reuse = none → ∀ j < probe, t (slot size home key j) ≠ .tomb
  first : ∀ s, reuse = some s → ∃ d < probe, s = slot size home key d ∧ t s = .tomb

variable {size home} {t : ProbeTable K V} {key : K} {value : V} {probe s d left : Nat} {held : V}
  {reuse hole hole' : Option Nat} {other : K} {cell : Cell K V}

theorem slot_inj {probe' : Nat} (hlt : probe < size) (hlt' : probe' < size)
    (h : slot size home key probe = slot size home key probe') : probe = probe' := by
  have hmod : probe % size = probe' % size := Nat.ModEq.add_left_cancel' _ h
  rwa [Nat.mod_eq_of_lt hlt, Nat.mod_eq_of_lt hlt'] at hmod

/-- The probes of a key visit every cell. -/
theorem exists_probe (home : K → Nat) (key : K) (hs : s < size) :
    ∃ d < size, slot size home key d = s := by
  refine ⟨(s + (size - home key % size)) % size, Nat.mod_lt _ (by omega), ?_⟩
  have hhome : home key % size < size := Nat.mod_lt _ (by omega)
  calc
    slot size home key ((s + (size - home key % size)) % size)
      = (home key % size + (s + (size - home key % size))) % size := by
        rw [slot, Nat.add_mod_mod, ← Nat.mod_add_mod]
    _ = (s + size) % size := by congr 1; omega
    _ = s := by rw [Nat.add_mod_right, Nat.mod_eq_of_lt hs]

theorem sound_empty : Sound size home none (fun _ => (.empty : Cell K V)) := by
  intro s key value h
  simp at h

theorem Vacant.not_entry (h : Vacant t s) (key : K) (value : V) : t s ≠ .entry key value := by
  rcases h with hempty | htomb
  · simp [hempty]
  · simp [htomb]

/-! ## Probing towards an entry -/

/-- The probes before that of the entry meet other entries and tombstones. -/
theorem Placed.before (h : Placed size home none t key value d) (hlt : probe < d) :
    t (slot size home key probe) = .tomb ∨
      ∃ other held, other ≠ key ∧ t (slot size home key probe) = .entry other held := by
  cases hcell : t (slot size home key probe) with
  | empty => exact absurd (h.path probe hlt hcell) nofun
  | tomb => exact .inl rfl
  | entry other held =>
    refine .inr ⟨other, held, ?_, rfl⟩
    rintro rfl
    have hsame := slot_inj (Nat.lt_trans hlt h.lt) h.lt (h.sole _ held hcell)
    omega

/-- The probes that end at an empty cell, or with the table, have met every key that is placed. -/
theorem Placed.lt_of_end (h : Placed size home none t key value d)
    (hend : probe < size → t (slot size home key probe) = .empty) : d < probe := by
  by_contra hn
  have hempty := hend (lt_of_le_of_lt (not_lt.mp hn) h.lt)
  rcases Nat.lt_or_eq_of_le (not_lt.mp hn) with hlt | rfl
  · exact absurd (h.path probe hlt hempty) nofun
  · rw [h.here] at hempty
    simp at hempty

/-- What holds of the probe that meets the entry, and of one that passes its cell if of the next one,
holds of every probe up to the entry. -/
theorem Placed.induction (h : Placed size home none t key value d) {motive : Nat → Nat → Prop}
    (here : ∀ left, motive (left + 1) d)
    (tomb : ∀ left probe, t (slot size home key probe) = .tomb → motive left (probe + 1) →
      motive (left + 1) probe)
    (entry : ∀ left probe other held, other ≠ key →
      t (slot size home key probe) = .entry other held → motive left (probe + 1) →
      motive (left + 1) probe)
    (hle : probe ≤ d) (hleft : probe + left = size) : motive left probe := by
  induction left generalizing probe with
  | zero =>
    have := h.lt
    omega
  | succ left ih =>
    rcases Nat.lt_or_eq_of_le hle with hlt | rfl
    · have hrest := ih hlt (by omega)
      rcases h.before hlt with htomb | ⟨other, held, hne, hcell⟩
      · exact tomb left probe htomb hrest
      · exact entry left probe other held hne hcell hrest
    · exact here left

section Probing

variable [DecidableEq K]

theorem Placed.lookup (h : Placed size home none t key value d) :
    ProbeTable.lookup size home t key = some value := by
  refine h.induction (motive := fun left probe => lookupFrom size home t key left probe = some value)
    (fun left => ?_) (fun left probe htomb hrest => ?_)
    (fun left probe other held hne hcell hrest => ?_) (Nat.zero_le d) (zero_add size)
  · simp [lookupFrom, h.here]
  · simpa only [lookupFrom, htomb] using hrest
  · simpa only [lookupFrom, hcell, if_neg hne] using hrest

theorem lookup_empty (size : Nat) (home : K → Nat) (key : K) :
    lookup size home (fun _ => (.empty : Cell K V)) key = none := by
  cases size <;> rfl

/-- What is found is in the table. -/
theorem exists_of_lookupFrom (h : lookupFrom size home t key left probe = some value) :
    ∃ s, t s = .entry key value := by
  induction left generalizing probe with
  | zero => exact absurd h (by simp [lookupFrom])
  | succ left ih =>
    rw [lookupFrom] at h
    cases hcell : t (slot size home key probe) with
    | empty => simp [hcell] at h
    | tomb =>
      simp only [hcell] at h
      exact ih h
    | entry other held =>
      simp only [hcell] at h
      split_ifs at h with heq
      · obtain rfl := heq
        obtain rfl := Option.some.inj h
        exact ⟨_, hcell⟩
      · exact ih h

/-- A lookup finds exactly what is in the table. -/
theorem Sound.lookup_iff (h : Sound size home none t) :
    lookup size home t key = some value ↔ ∃ s, t s = .entry key value := by
  constructor
  · exact exists_of_lookupFrom
  · rintro ⟨s, hentry⟩
    obtain ⟨d, hplaced⟩ := h s key value hentry
    exact hplaced.lookup

theorem Sound.lookup_none (h : Sound size home none t) (hnone : lookup size home t key = none)
    (s : Nat) (held : V) : t s ≠ .entry key held := by
  intro hentry
  rw [h.lookup_iff.mpr ⟨s, hentry⟩] at hnone
  simp at hnone

end Probing

section Registering

variable [DecidableEq K] [DecidableEq V]

theorem Placed.register (h : Placed size home none t key held d) (value : V) :
    ProbeTable.register size home t key value = (t, if held = value then .ok else .inUse) := by
  refine h.induction (motive := fun left probe => ∀ reuse,
      registerFrom size home t key value left probe reuse =
        (t, if held = value then .ok else .inUse))
    (fun left reuse => ?_) (fun left probe htomb hrest reuse => ?_)
    (fun left probe other held hne hcell hrest reuse => ?_) (Nat.zero_le d) (zero_add size) none
  · simp [registerFrom, h.here]
  · simpa only [registerFrom, htomb] using hrest _
  · simpa only [registerFrom, hcell, if_neg hne] using hrest reuse

theorem Placed.unregister (h : Placed size home none t key value d) :
    ProbeTable.unregister size home t key value = update t (slot size home key d) .tomb := by
  refine h.induction (motive := fun left probe =>
      unregisterFrom size home t key value left probe = update t (slot size home key d) .tomb)
    (fun left => ?_) (fun left probe htomb hrest => ?_)
    (fun left probe other held hne hcell hrest => ?_) (Nat.zero_le d) (zero_add size)
  · simp [unregisterFrom, h.here]
  · simpa only [unregisterFrom, htomb] using hrest
  · simpa only [unregisterFrom, hcell, hne, false_and, if_false] using hrest

/-- A value that is not the key's own stays out of the way of an unregistration. -/
theorem unregisterFrom_absent (h : ∀ s, t s ≠ .entry key value) :
    unregisterFrom size home t key value left probe = t := by
  induction left generalizing probe with
  | zero => rfl
  | succ left ih =>
    rw [unregisterFrom]
    cases hcell : t (slot size home key probe) with
    | empty => rfl
    | tomb => exact ih
    | entry other held =>
      have hne : ¬ (other = key ∧ held = value) := by
        rintro ⟨rfl, rfl⟩
        exact h _ hcell
      simp only [if_neg hne]
      exact ih

end Registering

/-! ## New entries -/

theorem Probed.start : Probed size home t key 0 none :=
  ⟨by simp, by simp, by simp, by simp⟩

/-- One more cell that is not empty and not the key's. -/
theorem Probed.next (h : Probed size home t key probe reuse) {reuse' : Option Nat}
    (hempty : t (slot size home key probe) ≠ .empty)
    (hdiffer : ∀ held, t (slot size home key probe) ≠ .entry key held)
    (hnone : reuse' = none → reuse = none ∧ t (slot size home key probe) ≠ .tomb)
    (hsome : ∀ s, reuse' = some s →
      reuse = some s ∨ s = slot size home key probe ∧ t s = .tomb) :
    Probed size home t key (probe + 1) reuse' := by
  refine ⟨Nat.forall_lt_succ_right.mpr ⟨h.path, hempty⟩,
    Nat.forall_lt_succ_right.mpr ⟨h.differ, hdiffer⟩, fun hreuse => ?_, fun s hs => ?_⟩
  · obtain ⟨hold, htomb⟩ := hnone hreuse
    exact Nat.forall_lt_succ_right.mpr ⟨h.untouched hold, htomb⟩
  · rcases hsome s hs with hold | htomb
    · obtain ⟨d, hd, hslot⟩ := h.first s hold
      exact ⟨d, Nat.lt_succ_of_lt hd, hslot⟩
    · exact ⟨probe, Nat.lt_succ_self probe, htomb⟩

theorem Probed.tomb (h : Probed size home t key probe reuse)
    (htomb : t (slot size home key probe) = .tomb) :
    Probed size home t key (probe + 1) (reuse <|> some (slot size home key probe)) := by
  refine h.next (by simp [htomb]) (by simp [htomb]) (fun hnone => ?_) (fun s hs => ?_)
  · cases reuse <;> simp at hnone
  · cases reuse with
    | none =>
      obtain rfl := Option.some.inj hs
      exact .inr ⟨rfl, htomb⟩
    | some first => exact .inl hs

theorem Probed.entry (h : Probed size home t key probe reuse)
    (hentry : t (slot size home key probe) = .entry other held) (hne : other ≠ key) :
    Probed size home t key (probe + 1) reuse :=
  h.next (by simp [hentry]) (by simp [hentry, hne]) (fun hnone => ⟨hnone, by simp [hentry]⟩)
    fun _ hs => .inl hs

/-- The key is absent when a probe meets an empty cell or all cells have been probed. -/
theorem Probed.absent (h : Probed size home t key probe reuse) (hsound : Sound size home none t)
    (hend : probe < size → t (slot size home key probe) = .empty) (s : Nat) (held : V) :
    t s ≠ .entry key held := by
  intro hentry
  obtain ⟨d, hplaced⟩ := hsound s key held hentry
  exact h.differ d (hplaced.lt_of_end hend) held hplaced.here

/-- The first tombstone on the way is a target. -/
theorem Probed.reused (h : Probed size home t key probe (some s)) (hle : probe ≤ size)
    (habsent : ∀ s held, t s ≠ .entry key held) : Target size home t key s := by
  obtain ⟨d, hd, rfl, htomb⟩ := h.first s rfl
  exact ⟨⟨d, by omega, rfl, fun j hj => h.path j (by omega)⟩, .inr htomb, habsent⟩

/-- Where the probes meet an empty cell there is a target. -/
theorem Probed.target (h : Probed size home t key probe reuse) (hlt : probe < size)
    (hempty : t (slot size home key probe) = .empty)
    (habsent : ∀ s held, t s ≠ .entry key held) :
    Target size home t key (reuse.getD (slot size home key probe)) := by
  cases reuse with
  | none => exact ⟨⟨probe, hlt, rfl, h.path⟩, .inl hempty, habsent⟩
  | some first => exact h.reused hlt.le habsent

/-- A key that is not in the table is put into a target, or all cells have entries. -/
theorem Probed.registerFrom [DecidableEq K] [DecidableEq V] (h : Probed size home t key probe reuse)
    (hleft : probe + left = size) (habsent : ∀ s held, t s ≠ .entry key held) :
    ProbeTable.registerFrom size home t key value left probe reuse = (t, .full) ∧
        (∀ s < size, ¬ Vacant t s) ∨
      ∃ s, Target size home t key s ∧
        ProbeTable.registerFrom size home t key value left probe reuse =
          (update t s (.entry key value), .ok) := by
  induction left generalizing probe reuse with
  | zero =>
    cases reuse with
    | none =>
      refine .inl ⟨rfl, ?_⟩
      intro s hs hvacant
      obtain ⟨d, hd, rfl⟩ := exists_probe home key hs
      exact hvacant.elim (h.path d (by omega)) (h.untouched rfl d (by omega))
    | some first => exact .inr ⟨first, h.reused (by omega) habsent, rfl⟩
  | succ left ih =>
    rw [ProbeTable.registerFrom]
    cases hcell : t (slot size home key probe) with
    | empty => exact .inr ⟨_, h.target (by omega) hcell habsent, rfl⟩
    | tomb => exact ih (h.tomb hcell) (by omega)
    | entry other held =>
      have hne : other ≠ key := by
        rintro rfl
        exact habsent _ held hcell
      simp only [if_neg hne]
      exact ih (h.entry hcell hne) (by omega)

/-! ## Changing a cell -/

/-- A key stays placed while its entries are the same and no cell before them is freed. -/
theorem Placed.of_entries {t' : ProbeTable K V} (h : Placed size home hole t key value d)
    (hentries : ∀ s held, t' s = .entry key held ↔ t s = .entry key held)
    (hfree : ∀ j < d, t' (slot size home key j) = .empty →
      t (slot size home key j) = .empty ∧ hole ≠ some (slot size home key j) ∨
        hole' = some (slot size home key j)) :
    Placed size home hole' t' key value d := by
  refine ⟨h.lt, (hentries _ value).mpr h.here, fun j hj hempty => ?_, fun s held hentry => ?_⟩
  · rcases hfree j hj hempty with ⟨hold, hnot⟩ | hnew
    · exact absurd (h.path j hj hold) hnot
    · exact hnew
  · exact h.sole s held ((hentries s held).mp hentry)

/-- A cell that holds the key neither before nor after it is changed. -/
theorem entry_update_iff (hold : ∀ held, t s ≠ .entry other held)
    (hnew : ∀ held, cell ≠ .entry other held) (s' : Nat) (held : V) :
    update t s cell s' = .entry other held ↔ t s' = .entry other held := by
  by_cases hs : s' = s
  · rw [hs, update_self]
    exact iff_of_false (hnew held) (hold held)
  · rw [update_of_ne hs]

/-- The entries of other keys do not notice a change of a cell that is not theirs. -/
theorem Sound.kept (h : Sound size home hole t) {s' : Nat}
    (hentry : update t s cell s' = .entry other held) (hold : ∀ held, t s ≠ .entry other held)
    (hnew : ∀ held, cell ≠ .entry other held) (hempty : cell = .empty → hole' = some s)
    (hhole : ∀ s', hole = some s' → s' = s ∨ hole' = some s') :
    ∃ d, Placed size home hole' (update t s cell) other held d := by
  have hiff := entry_update_iff hold hnew
  obtain ⟨d, hplaced⟩ := h s' other held ((hiff s' held).mp hentry)
  refine ⟨d, hplaced.of_entries hiff fun j hj hfree => ?_⟩
  by_cases hs : slot size home other j = s
  · rw [hs, update_self] at hfree
    rw [hs]
    exact .inr (hempty hfree)
  · rw [update_of_ne hs] at hfree
    exact .inr ((hhole _ (hplaced.path j hj hfree)).resolve_left hs)

theorem Target.placed (h : Target size home t key s) (value : V) :
    ∃ d, s = slot size home key d ∧
      Placed size home none (update t s (.entry key value)) key value d := by
  obtain ⟨⟨d, hd, rfl, hpath⟩, -, habsent⟩ := h
  refine ⟨d, rfl, hd, update_self .., fun j hj hempty => ?_, fun s held hentry => ?_⟩
  · by_cases hs : slot size home key j = slot size home key d
    · rw [hs, update_self] at hempty
      simp at hempty
    · rw [update_of_ne hs] at hempty
      exact absurd hempty (hpath j hj)
  · by_contra hne
    rw [update_of_ne hne] at hentry
    exact habsent s held hentry

/-- A cell that is cleared stays a target, and is the hole of the table. -/
theorem Target.clear (h : Target size home t key s) :
    Target size home (update t s .empty) key s := by
  obtain ⟨⟨d, hd, rfl, hpath⟩, -, habsent⟩ := h
  refine ⟨⟨d, hd, rfl, fun j hj => ?_⟩, .inl (update_self ..), fun s held => ?_⟩
  · rw [update_of_ne]
    · exact hpath j hj
    · intro hsame
      have := slot_inj (Nat.lt_trans hj hd) hd hsame
      omega
  · by_cases hs : s = slot size home key d
    · simp [hs]
    · rw [update_of_ne hs]
      exact habsent s held

@[inherit_doc Target.clear]
theorem Sound.clear (h : Sound size home none t) (hvacant : Vacant t s) :
    Sound size home (some s) (update t s .empty) := by
  intro s' other held hentry
  exact h.kept hentry (hvacant.not_entry other) (by simp) (fun _ => rfl) nofun

theorem Sound.insert (h : Sound size home hole t) (hhole : ∀ s', hole = some s' → s' = s)
    (htarget : Target size home t key s) (value : V) :
    Sound size home none (update t s (.entry key value)) := by
  intro s' other held hentry
  by_cases hkey : other = key
  · subst hkey
    obtain ⟨d, -, hplaced⟩ := htarget.placed value
    obtain rfl := hplaced.sole s' held hentry
    rw [hplaced.here] at hentry
    cases hentry
    exact ⟨d, hplaced⟩
  · exact h.kept hentry (htarget.vacant.not_entry other) (by simp [Ne.symm hkey]) nofun
      fun s' hs' => .inl (hhole s' hs')

/-- An entry that is taken out was the only one of its key. -/
theorem Sound.erased (h : Sound size home hole t) (hentry : t s = .entry key value) (s' : Nat)
    (held : V) : update t s .tomb s' ≠ .entry key held := by
  intro hother
  by_cases hs : s' = s
  · rw [hs, update_self] at hother
    simp at hother
  · rw [update_of_ne hs] at hother
    obtain ⟨d, hplaced⟩ := h s' key held hother
    exact hs ((hplaced.sole s' held hother).trans (hplaced.sole s value hentry).symm)

theorem Sound.erase (h : Sound size home none t) (hentry : t s = .entry key value) :
    Sound size home none (update t s .tomb) := by
  intro s' other held hother
  have hkey : key ≠ other := by
    rintro rfl
    exact h.erased hentry s' held hother
  exact h.kept hother (by simp [hentry, hkey]) (by simp) nofun nofun

/-! ## The table as a finite map -/

variable [DecidableEq K]

/-- The lookups of other keys do not notice the change of a cell that is not theirs. -/
theorem Sound.lookup_update {found : Option V} (h : Sound size home none t)
    (hsound : Sound size home none (update t s cell))
    (hfound : lookup size home (update t s cell) key = found)
    (hother : ∀ other ≠ key, ∀ held, t s ≠ .entry other held ∧ cell ≠ .entry other held) :
    lookup size home (update t s cell) = update (lookup size home t) key found := by
  funext other
  by_cases hkey : other = key
  · rw [hkey, update_self, hfound]
  · rw [update_of_ne hkey]
    ext held
    rw [hsound.lookup_iff, h.lookup_iff]
    exact exists_congr fun s' => entry_update_iff (fun held => (hother other hkey held).1)
      (fun held => (hother other hkey held).2) s' held

variable [DecidableEq V]

/-- Registering a key that is in the table changes nothing. -/
theorem Sound.register_present (h : Sound size home none t)
    (hheld : lookup size home t key = some held) (value : V) :
    register size home t key value = (t, if held = value then .ok else .inUse) := by
  obtain ⟨s, hentry⟩ := h.lookup_iff.mp hheld
  obtain ⟨d, hplaced⟩ := h s key held hentry
  exact hplaced.register value

/-- Registering a key that is not in the table adds it, unless every cell has an entry. -/
theorem Sound.register_absent (h : Sound size home none t) (hnone : lookup size home t key = none)
    (value : V) :
    register size home t key value = (t, .full) ∧ (∀ s < size, ¬ Vacant t s) ∨
      ∃ t', register size home t key value = (t', .ok) ∧ Sound size home none t' ∧
        lookup size home t' = update (lookup size home t) key (some value) := by
  have hstart : Probed size home t key 0 none := Probed.start
  rcases hstart.registerFrom (zero_add size) (h.lookup_none hnone) with
    hfull | ⟨s, htarget, hregister⟩
  · exact .inl hfull
  · obtain ⟨d, -, hplaced⟩ := htarget.placed value
    have hsound := h.insert nofun htarget value
    refine .inr ⟨_, hregister, hsound, ?_⟩
    refine h.lookup_update hsound hplaced.lookup fun other hkey held => ?_
    exact ⟨htarget.vacant.not_entry other held, by simp [Ne.symm hkey]⟩

/-- An unregistration takes the value out, and only if it is the one registered. -/
theorem Sound.unregister_spec (h : Sound size home none t) (key : K) (value : V) :
    Sound size home none (unregister size home t key value) ∧
      lookup size home (unregister size home t key value) =
        if lookup size home t key = some value
        then update (lookup size home t) key none else lookup size home t := by
  by_cases hheld : lookup size home t key = some value
  · obtain ⟨s, hentry⟩ := h.lookup_iff.mp hheld
    obtain ⟨d, hplaced⟩ := h s key value hentry
    have hsound := h.erase hplaced.here
    rw [if_pos hheld, hplaced.unregister]
    refine ⟨hsound, h.lookup_update hsound ?_ fun other hkey held => ?_⟩
    · rw [Option.eq_none_iff_forall_ne_some]
      intro held hfound
      obtain ⟨s', hentry'⟩ := hsound.lookup_iff.mp hfound
      exact h.erased hplaced.here s' held hentry'
    · exact ⟨by simp [hplaced.here, Ne.symm hkey], by simp⟩
  · rw [if_neg hheld, unregister, unregisterFrom_absent]
    · exact ⟨h, rfl⟩
    · intro s hentry
      exact hheld (h.lookup_iff.mpr ⟨s, hentry⟩)

end ProbeTable

end SnowTG.Lib
