import SnowTG.Owner.NoLostReadiness

/-!
# Slots, handles and generations

The slot table of an owner holds pointers to sockets, and a socket remembers the
slot and the generation it was adopted under.  A handle is a copy of these, kept
by code that must not hold the pointer.  Retirement advances the generation of
the slot, so a handle kept for too long stops resolving; it could resolve again
only after the generations have come round.
-/

namespace SnowTG.Owner

open SnowTG.Lib Function List Option

/-- `NSOCK_INVALID_ID`. -/
def nsockInvalidId : Nat := 2 ^ 32 - 1

/-- The generation a slot has after `socket_owner_retire`; zero is skipped at the wrap. -/
def nextGeneration (generation : BitVec 32) : BitVec 32 :=
  let next := generation + 1
  if next = 0 then 1 else next

/-- The slot table of `struct socket_owner`, with the sockets by their addresses.  The head of
`freeIds` is the top of the stack. -/
structure SlotOwner where
  lcoreId : Nat
  slots : List (Option Nat)
  generations : List (BitVec 32)
  freeIds : List Nat
  socks : Nat → Option Nsock

namespace SlotOwner

def slotCapacity (o : SlotOwner) : Nat := o.slots.length

/-- The address in a slot. -/
def at? (o : SlotOwner) (id : Nat) : Option Nat := (o.slots[id]?).join

/-- The generation of a slot. -/
def generation (o : SlotOwner) (id : Nat) : BitVec 32 := o.generations.getD id 0

/-- `socket_owner_init_with_capacity`. -/
def init (lcoreId capacity : Nat) : SlotOwner where
  lcoreId := lcoreId
  slots := List.replicate capacity none
  generations := List.replicate capacity 0
  freeIds := List.range capacity
  socks := fun _ => none

/-- `owner_lookup`, on the lcore of the owner. -/
def lookup (o : SlotOwner) (handle : Handle) : Option Nat :=
  if handle.id ≥ o.slotCapacity || handle.ownerLcore ≠ o.lcoreId then none
  else
    match o.at? handle.id with
    | none => none
    | some p =>
      match o.socks p with
      | none => none
      | some sk =>
        if sk.generation ≠ handle.generation || sk.protocol ≠ handle.protocol then none
        else some p

/-- `nsock_alloc` at a free address. -/
def nsockAlloc (o : SlotOwner) (p : Nat) (protocol : BitVec 8) : SlotOwner :=
  { o with
    socks := update o.socks p
      (some { id := nsockInvalidId, generation := 0, ownerLcore := 0, protocol := protocol }) }

/-- `socket_owner_adopt`, with whether it succeeds; the error is `ENFILE`. -/
def adopt (o : SlotOwner) (p : Nat) : SlotOwner × Bool :=
  match o.socks p, o.freeIds with
  | none, _ => (o, false)
  | some _, [] => (o, false)
  | some sk, id :: rest =>
    let generation := if o.generation id = 0 then 1 else o.generation id
    ({ o with
        freeIds := rest
        generations := o.generations.set id generation
        slots := o.slots.set id (some p)
        socks := update o.socks p
          (some { sk with id := id, generation := generation, ownerLcore := o.lcoreId }) },
      true)

/-- `socket_owner_retire`; the completion of parked commands leaves the table alone. -/
def retire (o : SlotOwner) (p : Nat) : SlotOwner :=
  match o.socks p with
  | none => o
  | some sk =>
    if sk.id = nsockInvalidId then o
    else if sk.id ≥ o.slotCapacity || sk.ownerLcore ≠ o.lcoreId then o
    else if o.at? sk.id = some p then
      { o with
        slots := o.slots.set sk.id none
        generations := o.generations.set sk.id (nextGeneration (o.generation sk.id))
        freeIds := if o.freeIds.length < o.slotCapacity then sk.id :: o.freeIds else o.freeIds }
    else o

/-- `nsock_free` on the lcore of the owner: without a registry the memory of the retired socket is
kept. -/
def nsockFree (o : SlotOwner) (p : Nat) (registry : Bool) : SlotOwner :=
  match o.socks p with
  | none => o
  | some sk =>
    if sk.id ≠ nsockInvalidId && sk.ownerLcore ≠ o.lcoreId then o
    else if registry then { o.retire p with socks := update o.socks p none }
    else o.retire p

/-- `socket_owner_handle`. -/
def handle (o : SlotOwner) (p : Nat) : Option Handle := (o.socks p).map socketOwnerHandle

end SlotOwner

/-- What happens to the sockets of an owner. -/
inductive SlotEvent where
  | alloc (p : Nat) (protocol : BitVec 8)
  | adopt (p : Nat)
  | free (p : Nat) (registry : Bool)
  deriving DecidableEq, Repr

/-- An owner with the handles its sockets were adopted under: a handle is entered when
`socket_owner_adopt` succeeds and struck out when the socket is freed. -/
structure SlotRun where
  owner : SlotOwner
  adopted : Nat → Option Handle

namespace SlotRun

def step (r : SlotRun) : SlotEvent → SlotRun
  | .alloc p protocol => { r with owner := r.owner.nsockAlloc p protocol }
  | .adopt p =>
    match r.owner.adopt p with
    | (owner, true) => ⟨owner, update r.adopted p (owner.handle p)⟩
    | (owner, false) => { r with owner := owner }
  | .free p registry => ⟨r.owner.nsockFree p registry, update r.adopted p none⟩

/-- Memory is handed out once, a socket is adopted right after its allocation, and only an allocated
socket is freed. -/
def enabled (r : SlotRun) : SlotEvent → Prop
  | .alloc p _ => r.owner.socks p = none
  | .adopt p => (r.owner.socks p).map Nsock.id = some nsockInvalidId
  | .free p _ => (r.owner.socks p).isSome

end SlotRun

/-- Runs from an owner without sockets.  `socket_owner_capacity_params` accepts a positive capacity
whose double fits in 32 bits. -/
def slotSystem : System SlotRun SlotEvent where
  init r := ∃ lcoreId capacity, 0 < capacity ∧ 2 * capacity < 2 ^ 32 ∧
    r = ⟨.init lcoreId capacity, fun _ => none⟩
  enabled := SlotRun.enabled
  step := SlotRun.step

/-! ## Generations -/

variable {g : BitVec 32}

/-- The nonzero values of a generation, in the order they are gone through. -/
theorem nextGeneration_toNat (g : BitVec 32) :
    (nextGeneration g).toNat = g.toNat % (2 ^ 32 - 1) + 1 := by
  have hlt := g.isLt
  have hsum : (g + 1).toNat = (g.toNat + 1) % 2 ^ 32 := by simp [BitVec.toNat_add]
  rw [nextGeneration]
  by_cases hwrap : g + 1 = 0
  · have hzero : (g + 1).toNat = 0 := by rw [hwrap]; rfl
    have hlast : g.toNat = 2 ^ 32 - 1 := by omega
    simp only [hwrap, if_true, hlast, Nat.mod_self]
    rfl
  · have hnext : (g + 1).toNat ≠ 0 := fun heq => hwrap (BitVec.eq_of_toNat_eq heq)
    simp only [hwrap, if_false]
    omega

theorem nextGeneration_ne_zero (g : BitVec 32) : nextGeneration g ≠ 0 := by
  rw [nextGeneration]
  split
  · decide
  · assumption

theorem nextGeneration_iterate_toNat (h : g ≠ 0) (n : Nat) :
    (nextGeneration^[n] g).toNat = (g.toNat - 1 + n) % (2 ^ 32 - 1) + 1 := by
  have hlt := g.isLt
  have hpos : g.toNat ≠ 0 := fun heq => h (BitVec.eq_of_toNat_eq heq)
  induction n with
  | zero =>
    rw [iterate_zero, id, Nat.add_zero, Nat.mod_eq_of_lt (by omega)]
    omega
  | succ n ih =>
    rw [iterate_succ_apply', nextGeneration_toNat, ih]
    omega

variable {v : BitVec 32}

/-- Coming back to a generation takes one step for every nonzero value, and each of them is met on
the way. -/
theorem nextGeneration_round {n : Nat}
    (hback : nextGeneration^[n] (nextGeneration g) = g) (hv : v ≠ 0) :
    ∃ k ≤ n, nextGeneration^[k] (nextGeneration g) = v := by
  have hv' := v.isLt
  have hvpos : v.toNat ≠ 0 := fun heq => hv (BitVec.eq_of_toNat_eq heq)
  have hiter := nextGeneration_iterate_toNat (nextGeneration_ne_zero g)
  have hnext := nextGeneration_toNat g
  have hwhole := hiter n
  rw [hback, hnext] at hwhole
  -- the distance from the next generation to `v`, along the round
  have hdist := hiter ((v.toNat - 1 + (2 ^ 32 - 1) - g.toNat % (2 ^ 32 - 1)) % (2 ^ 32 - 1))
  rw [hnext] at hdist
  refine ⟨_, ?_, BitVec.eq_of_toNat_eq (hdist.trans ?_)⟩
  · omega
  · omega

/-! ## The table -/

namespace SlotOwner

variable {o : SlotOwner} {id p : Nat}

theorem at?_set {slots : List (Option Nat)} (h : id < slots.length) (entry : Option Nat) (j : Nat) :
    ((slots.set id entry)[j]?).join = if j = id then entry else (slots[j]?).join := by
  rw [List.getElem?_set]
  by_cases hj : j = id
  · subst hj
    simp [h]
  · rw [if_neg hj, if_neg fun heq => hj heq.symm]

theorem at?_some_lt (h : o.at? id = some p) : id < o.slots.length := by
  by_contra hge
  rw [at?, List.getElem?_eq_none (by omega)] at h
  simp at h

theorem getD_set {generations : List (BitVec 32)} (h : id < generations.length) (g : BitVec 32)
    (j : Nat) : (generations.set id g).getD j 0 = if j = id then g else generations.getD j 0 := by
  rw [getD_eq_getElem?_getD, List.getElem?_set, getD_eq_getElem?_getD]
  by_cases hj : j = id
  · subst hj
    simp [h]
  · rw [if_neg hj, if_neg fun heq => hj heq.symm]

end SlotOwner

/-- Free ids and occupied slots are told apart by the table, and an occupied slot, its socket and
the handle the socket was adopted under agree. -/
structure SlotRun.Inv (r : SlotRun) : Prop where
  capacity : r.owner.slots.length < nsockInvalidId
  generations : r.owner.generations.length = r.owner.slots.length
  nodup : r.owner.freeIds.Nodup
  free : ∀ id, id ∈ r.owner.freeIds ↔ id < r.owner.slots.length ∧ r.owner.at? id = none
  nonzero : ∀ {id p}, r.owner.at? id = some p → r.owner.generation id ≠ 0
  occupied : ∀ {id p}, r.owner.at? id = some p → ∃ sk, r.owner.socks p = some sk ∧ sk.id = id ∧
    sk.generation = r.owner.generation id ∧ sk.ownerLcore = r.owner.lcoreId ∧
    r.adopted p = some (socketOwnerHandle sk)
  adopted : ∀ {p handle}, r.adopted p = some handle → r.owner.at? handle.id = some p

namespace SlotRun

variable {r : SlotRun} {p id : Nat} {handle : Handle} {e : SlotEvent}
  {ok : SlotRun → SlotEvent → Prop} {events : List SlotEvent} {registry : Bool}

theorem inv_init (h : slotSystem.init r) : r.Inv := by
  obtain ⟨lcoreId, capacity, -, hfit, rfl⟩ := h
  have hnone : ∀ id, (SlotOwner.init lcoreId capacity).at? id = none := by
    intro id
    simp only [SlotOwner.at?, SlotOwner.init, List.getElem?_replicate]
    split <;> rfl
  constructor
  · simp only [SlotOwner.init, length_replicate, nsockInvalidId]
    omega
  · simp [SlotOwner.init]
  · exact nodup_range
  · intro id
    rw [hnone]
    simp [SlotOwner.init]
  · intro id p h
    rw [hnone] at h
    simp at h
  · intro id p h
    rw [hnone] at h
    simp at h
  · intro p handle h
    simp at h

section

variable (h : r.Inv)
include h

/-- A change of the sockets that spares those in the slots keeps the invariant. -/
theorem Inv.socks_off_table (entry : Option Nsock) (hoff : r.adopted p = none) :
    ({ r with owner := { r.owner with socks := update r.owner.socks p entry } } : SlotRun).Inv := by
  refine { h with occupied := ?_ }
  intro id q hq
  obtain ⟨sk, hsk, hid, hgen, hlcore, had⟩ := h.occupied hq
  have hne : q ≠ p := by
    rintro rfl
    rw [hoff] at had
    simp at had
  exact ⟨sk, (update_of_ne hne _ _).trans hsk, hid, hgen, hlcore, had⟩

/-- An adopted socket is allocated, and its handle is the one it was adopted under. -/
theorem Inv.sock_of_adopted (had : r.adopted p = some handle) :
    ∃ sk, r.owner.socks p = some sk ∧
      socketOwnerHandle sk = handle ∧ sk.generation = r.owner.generation handle.id ∧
      sk.ownerLcore = r.owner.lcoreId := by
  obtain ⟨sk, hsk, -, hgen, hlcore, had'⟩ := h.occupied (h.adopted had)
  exact ⟨sk, hsk, Option.some.inj (had'.symm.trans had), hgen, hlcore⟩

theorem Inv.alloc (hfree : r.owner.socks p = none) (protocol : BitVec 8) :
    (r.step (.alloc p protocol)).Inv := by
  apply h.socks_off_table
  cases had : r.adopted p with
  | none => rfl
  | some handle =>
    obtain ⟨sk, hsk, -⟩ := h.sock_of_adopted had
    rw [hfree] at hsk
    simp at hsk

/-- What `socket_owner_adopt` does with a socket that has no slot yet. -/
theorem Inv.adopt_cases (hnew : (r.owner.socks p).map Nsock.id = some nsockInvalidId) :
    r.adopted p = none ∧
      (r.owner.freeIds = [] ∧ r.step (.adopt p) = r ∨
        ∃ sk id rest generation, r.owner.socks p = some sk ∧ r.owner.freeIds = id :: rest ∧
          generation = (if r.owner.generation id = 0 then 1 else r.owner.generation id) ∧
          r.step (.adopt p) =
            ⟨{ r.owner with
                freeIds := rest
                generations := r.owner.generations.set id generation
                slots := r.owner.slots.set id (some p)
                socks := update r.owner.socks p
                  (some { sk with
                    id := id, generation := generation, ownerLcore := r.owner.lcoreId }) },
              update r.adopted p (some ⟨id, generation, r.owner.lcoreId, sk.protocol⟩)⟩) := by
  obtain ⟨sk, hsk, hid⟩ := map_eq_some_iff.mp hnew
  constructor
  · cases had : r.adopted p with
    | none => rfl
    | some handle =>
      obtain ⟨sk', hsk', hhandle, -⟩ := h.sock_of_adopted had
      obtain rfl := Option.some.inj (hsk.symm.trans hsk')
      have hlt := SlotOwner.at?_some_lt (h.adopted had)
      have hcap := h.capacity
      rw [← hhandle] at hlt
      simp only [socketOwnerHandle] at hlt
      omega
  · cases hfree : r.owner.freeIds with
    | nil =>
      left
      refine ⟨rfl, ?_⟩
      simp [step, SlotOwner.adopt, hsk, hfree]
    | cons id rest =>
      right
      refine ⟨sk, id, rest, _, hsk, rfl, rfl, ?_⟩
      simp [step, SlotOwner.adopt, SlotOwner.handle, socketOwnerHandle, hsk, hfree]

/-- A new socket takes a free slot in its present generation. -/
theorem Inv.adopt (hnew : (r.owner.socks p).map Nsock.id = some nsockInvalidId) :
    (r.step (.adopt p)).Inv := by
  obtain ⟨hoff, ⟨-, hsame⟩ | ⟨sk, id, rest, generation, -, hfree, hgen, hstep⟩⟩ :=
    h.adopt_cases hnew
  · rw [hsame]
    exact h
  have hmem : id ∈ r.owner.freeIds := by simp [hfree]
  have hvacant := (h.free id).mp hmem
  have hnodup := h.nodup
  rw [hfree, nodup_cons] at hnodup
  have hat := SlotOwner.at?_set hvacant.1 (some p)
  have hgens := SlotOwner.getD_set (h.generations ▸ hvacant.1) generation
  have hone : generation ≠ 0 := by
    rw [hgen]
    split
    · decide
    · assumption
  rw [hstep]
  constructor
  · simpa using h.capacity
  · simpa using h.generations
  · exact hnodup.2
  · intro j
    have hj := h.free j
    rw [hfree, mem_cons] at hj
    simp only [SlotOwner.at?, hat, length_set]
    by_cases heq : j = id
    · subst heq
      simp [hnodup.1]
    · simpa [heq, SlotOwner.at?] using hj
  · intro j q hq
    simp only [SlotOwner.at?, hat] at hq
    simp only [SlotOwner.generation, hgens]
    split_ifs at hq ⊢ with heq
    · exact hone
    · exact h.nonzero hq
  · intro j q hq
    simp only [SlotOwner.at?, hat] at hq
    simp only [SlotOwner.generation, hgens]
    split_ifs at hq ⊢ with heq
    · obtain rfl := Option.some.inj hq
      exact ⟨_, update_self .., heq.symm, rfl, rfl, update_self ..⟩
    · obtain ⟨other, hsock, hid, hg, hlcore, had⟩ := h.occupied hq
      have hne : q ≠ p := by
        rintro rfl
        rw [hoff] at had
        simp at had
      exact ⟨other, (update_of_ne hne _ _).trans hsock, hid, hg, hlcore,
        (update_of_ne hne _ _).trans had⟩
  · intro q handle had
    dsimp only at had
    simp only [SlotOwner.at?, hat]
    by_cases hq : q = p
    · subst hq
      rw [update_self] at had
      rw [← Option.some.inj had, if_pos rfl]
    · rw [update_of_ne hq] at had
      have hold := h.adopted had
      have hne : handle.id ≠ id := by
        intro heq
        rw [heq, hvacant.2] at hold
        simp at hold
      rw [if_neg hne]
      exact hold

/-- There is room on the stack for the id of an occupied slot. -/
theorem Inv.freeIds_room (hat : r.owner.at? id = some p) :
    r.owner.freeIds.length < r.owner.slotCapacity := by
  have hbusy : id ∉ r.owner.freeIds := by
    intro hmem
    rw [((h.free id).mp hmem).2] at hat
    simp at hat
  have hsub : id :: r.owner.freeIds ⊆ List.range r.owner.slots.length := by
    intro j hj
    rw [mem_range]
    rcases mem_cons.mp hj with rfl | hfree
    · exact SlotOwner.at?_some_lt hat
    · exact ((h.free j).mp hfree).1
  have hlen := (subperm_of_subset (nodup_cons.mpr ⟨hbusy, h.nodup⟩) hsub).length_le
  simp only [length_cons, length_range] at hlen
  exact hlen

/-- `socket_owner_retire` spares the slots when the socket is in none. -/
theorem Inv.retire_off_table (hoff : r.adopted p = none) : r.owner.retire p = r.owner := by
  rw [SlotOwner.retire]
  cases hsk : r.owner.socks p with
  | none => rfl
  | some sk =>
    have hnot : r.owner.at? sk.id ≠ some p := by
      intro hat
      obtain ⟨_, _, _, _, _, had⟩ := h.occupied hat
      rw [hoff] at had
      simp at had
    simp [hnot]

theorem Inv.retire_adopted (had : r.adopted p = some handle) :
    r.owner.retire p =
      { r.owner with
        slots := r.owner.slots.set handle.id none
        generations := r.owner.generations.set handle.id
          (nextGeneration (r.owner.generation handle.id))
        freeIds := handle.id :: r.owner.freeIds } := by
  obtain ⟨sk, hsk, rfl, -, hlcore⟩ := h.sock_of_adopted had
  have hat := h.adopted had
  have hlt := SlotOwner.at?_some_lt hat
  have hcap := h.capacity
  simp only [socketOwnerHandle] at hat hlt ⊢
  have hvalid : sk.id ≠ nsockInvalidId := by omega
  have hinside : ¬ (r.owner.slots.length ≤ sk.id) := by omega
  have hroom := h.freeIds_room hat
  rw [SlotOwner.slotCapacity] at hroom
  simp [SlotOwner.retire, hsk, hvalid, hinside, SlotOwner.slotCapacity, hlcore, hat, hroom]

/-- What `nsock_free` does: the slot of an adopted socket is vacated, and nothing else is touched
but the memory of the socket. -/
theorem Inv.free_cases (hsome : (r.owner.socks p).isSome) (registry : Bool) :
    ∃ entry, (r.adopted p = none ∧
        r.step (.free p registry) =
          { r with owner := { r.owner with socks := update r.owner.socks p entry } }) ∨
      ∃ handle, r.adopted p = some handle ∧
        r.step (.free p registry) =
          ⟨{ r.owner with
              slots := r.owner.slots.set handle.id none
              generations := r.owner.generations.set handle.id
                (nextGeneration (r.owner.generation handle.id))
              freeIds := handle.id :: r.owner.freeIds
              socks := update r.owner.socks p entry },
            update r.adopted p none⟩ := by
  obtain ⟨sk, hsk⟩ := isSome_iff_exists.mp hsome
  cases had : r.adopted p with
  | none =>
    have hghost : update r.adopted p none = r.adopted := by
      rw [← had, update_eq_self]
    rw [step, SlotOwner.nsockFree, hsk, h.retire_off_table had, hghost]
    by_cases hforeign : sk.id ≠ nsockInvalidId && sk.ownerLcore ≠ r.owner.lcoreId
    · refine ⟨r.owner.socks p, .inl ⟨rfl, ?_⟩⟩
      simp only [if_pos hforeign, update_eq_self]
    · cases registry with
      | true => exact ⟨none, .inl ⟨rfl, by simp only [if_neg hforeign, if_true]⟩⟩
      | false => exact ⟨r.owner.socks p, .inl ⟨rfl, by simp⟩⟩
  | some handle =>
    obtain ⟨sk', hsk', -, -, hlcore⟩ := h.sock_of_adopted had
    obtain rfl := Option.some.inj (hsk.symm.trans hsk')
    rw [step, SlotOwner.nsockFree, hsk, h.retire_adopted had]
    cases registry with
    | true => exact ⟨none, .inr ⟨handle, rfl, by simp [hlcore]⟩⟩
    | false => exact ⟨r.owner.socks p, .inr ⟨handle, rfl, by simp [hlcore]⟩⟩

theorem Inv.free_step (hsome : (r.owner.socks p).isSome) (registry : Bool) :
    (r.step (.free p registry)).Inv := by
  obtain ⟨entry, ⟨hoff, hstep⟩ | ⟨handle, had, hstep⟩⟩ := h.free_cases hsome registry
  · rw [hstep]
    exact h.socks_off_table entry hoff
  have hold := h.adopted had
  have hlt := SlotOwner.at?_some_lt hold
  have hat := SlotOwner.at?_set hlt none
  generalize nextGeneration (r.owner.generation handle.id) = next at hstep
  have hgens := SlotOwner.getD_set (h.generations ▸ hlt) next
  have hbusy : handle.id ∉ r.owner.freeIds := by
    intro hmem
    rw [((h.free _).mp hmem).2] at hold
    simp at hold
  -- the slots that stay occupied hold other sockets
  have hothers : ∀ {j q}, j ≠ handle.id → r.owner.at? j = some q → q ≠ p := by
    rintro j q hne hq rfl
    obtain ⟨sk, -, hid, -, -, had'⟩ := h.occupied hq
    rw [had] at had'
    rw [Option.some.inj had'] at hne
    exact hne hid.symm
  rw [hstep]
  constructor
  · simpa using h.capacity
  · simpa using h.generations
  · exact nodup_cons.mpr ⟨hbusy, h.nodup⟩
  · intro j
    simp only [SlotOwner.at?, hat, length_set, mem_cons, h.free j]
    by_cases heq : j = handle.id
    · simp [heq, hlt]
    · simp [heq]
  · intro j q hq
    simp only [SlotOwner.at?, hat] at hq
    split_ifs at hq with heq
    simp only [SlotOwner.generation, hgens, if_neg heq]
    exact h.nonzero hq
  · intro j q hq
    simp only [SlotOwner.at?, hat] at hq
    split_ifs at hq with heq
    simp only [SlotOwner.generation, hgens, if_neg heq]
    obtain ⟨other, hsock, hid, hg, hlcore, had'⟩ := h.occupied hq
    have hne := hothers heq hq
    exact ⟨other, (update_of_ne hne _ _).trans hsock, hid, hg, hlcore,
      (update_of_ne hne _ _).trans had'⟩
  · intro q other hother
    dsimp only at hother
    have hne : q ≠ p := by
      rintro rfl
      rw [update_self] at hother
      simp at hother
    rw [update_of_ne hne] at hother
    have hslot := h.adopted hother
    have hid : other.id ≠ handle.id := by
      intro heq
      rw [heq, hold] at hslot
      exact hne (Option.some.inj hslot).symm
    simp only [SlotOwner.at?, hat, if_neg hid]
    exact hslot

theorem Inv.step (hen : r.enabled e) : (r.step e).Inv := by
  cases e with
  | alloc p protocol => exact h.alloc hen protocol
  | adopt p => exact h.adopt hen
  | free p registry => exact h.free_step hen registry

end

theorem reach_inv (h : slotSystem.Reach ok r) : r.Inv := by
  apply h.invariant
  · intro s hs
    exact inv_init hs
  · intro s e hs hen _
    exact hs.step hen

/-- The handle a socket was adopted under resolves to it, and no other handle does. -/
theorem Inv.lookup_iff (h : r.Inv) (handle : Handle) (p : Nat) :
    r.owner.lookup handle = some p ↔ r.adopted p = some handle := by
  constructor
  · intro hfound
    rw [SlotOwner.lookup] at hfound
    split_ifs at hfound with hbad
    cases hat : r.owner.at? handle.id with
    | none => simp [hat] at hfound
    | some q =>
      obtain ⟨sk, hsk, hid, -, hlcore, had⟩ := h.occupied hat
      simp only [hat, hsk] at hfound
      split_ifs at hfound with hstale
      obtain rfl := Option.some.inj hfound
      simp only [ne_eq, ge_iff_le, Bool.or_eq_true, decide_eq_true_eq, not_or, not_not]
        at hbad hstale
      rw [had, socketOwnerHandle, hid, hlcore, hstale.1, hstale.2, ← hbad.2]
  · intro had
    obtain ⟨sk, hsk, rfl, -, hlcore⟩ := h.sock_of_adopted had
    have hat := h.adopted had
    have hlt := SlotOwner.at?_some_lt hat
    simp only [socketOwnerHandle] at hat hlt ⊢
    simp [SlotOwner.lookup, SlotOwner.slotCapacity, hat, hsk, hlt, hlcore]

/-- An event leaves the generation of a slot or advances it, once the slot has been used. -/
theorem Inv.generation_step (h : r.Inv) (hen : r.enabled e) (hused : r.owner.generation id ≠ 0) :
    ∃ j ≤ 1, (r.step e).owner.generation id = nextGeneration^[j] (r.owner.generation id) := by
  cases e with
  | alloc p protocol => exact ⟨0, Nat.zero_le 1, rfl⟩
  | adopt p =>
    obtain ⟨-, ⟨-, hsame⟩ | ⟨sk, slot, rest, generation, -, hfree, hgen, hstep⟩⟩ :=
      h.adopt_cases hen
    · rw [hsame]
      exact ⟨0, Nat.zero_le 1, rfl⟩
    · refine ⟨0, Nat.zero_le 1, ?_⟩
      have hlt := ((h.free slot).mp (by simp [hfree])).1
      have hset := SlotOwner.getD_set (h.generations ▸ hlt) generation id
      rw [hstep]
      by_cases heq : id = slot
      · subst heq
        rw [if_pos rfl, hgen, if_neg hused] at hset
        rw [hgen, if_neg hused]
        exact hset
      · rw [if_neg heq] at hset
        exact hset
  | free p registry =>
    obtain ⟨entry, ⟨-, hstep⟩ | ⟨handle, had, hstep⟩⟩ := h.free_cases hen registry
    · rw [hstep]
      exact ⟨0, Nat.zero_le 1, rfl⟩
    · have hlt := SlotOwner.at?_some_lt (h.adopted had)
      have hset := SlotOwner.getD_set (h.generations ▸ hlt)
        (nextGeneration (r.owner.generation handle.id)) id
      rw [hstep]
      by_cases heq : id = handle.id
      · subst heq
        rw [if_pos rfl] at hset
        exact ⟨1, le_rfl, hset⟩
      · rw [if_neg heq] at hset
        exact ⟨0, Nat.zero_le 1, hset⟩

/-- Over a run the generation of a used slot goes on step by step, each value it passes being its
value after some of the events. -/
theorem Inv.generation_run (h : r.Inv) (hrun : slotSystem.Admissible ok r events)
    (hused : r.owner.generation id ≠ 0) :
    ∃ n, (slotSystem.run r events).owner.generation id =
        nextGeneration^[n] (r.owner.generation id) ∧
      ∀ k ≤ n, ∃ earlier, earlier <+: events ∧
        (slotSystem.run r earlier).owner.generation id =
          nextGeneration^[k] (r.owner.generation id) := by
  induction events generalizing r with
  | nil =>
    refine ⟨0, rfl, ?_⟩
    intro k hk
    obtain rfl : k = 0 := by omega
    exact ⟨[], prefix_refl _, rfl⟩
  | cons e rest ih =>
    obtain ⟨hen, -, hrest⟩ := hrun
    obtain ⟨j, hj, hmove⟩ := h.generation_step hen hused
    have hused' : (r.step e).owner.generation id ≠ 0 := by
      intro hzero
      have hpos := nextGeneration_iterate_toNat hused j
      rw [← hmove, hzero] at hpos
      simp at hpos
    obtain ⟨n, hend, hpassed⟩ := ih (h.step hen) hrest hused'
    refine ⟨n + j, ?_, ?_⟩
    · rw [iterate_add_apply, ← hmove]
      exact hend
    · intro k hk
      by_cases hfirst : k < j
      · obtain rfl : k = 0 := by omega
        exact ⟨[], nil_prefix, rfl⟩
      · obtain ⟨earlier, hsub, hvalue⟩ := hpassed (k - j) (by omega)
        refine ⟨e :: earlier, cons_prefix_cons.mpr ⟨rfl, hsub⟩, ?_⟩
        rw [← Nat.sub_add_cancel (Nat.not_lt.mp hfirst), iterate_add_apply, ← hmove]
        exact hvalue

theorem Inv.run (h : r.Inv) (hrun : slotSystem.Admissible ok r events) :
    (slotSystem.run r events).Inv := by
  induction events generalizing r with
  | nil => exact h
  | cons e rest ih => exact ih (h.step hrun.1) hrun.2.2

/-- The generation of an adopted handle is the one its slot has. -/
theorem Inv.generation_of_adopted (h : r.Inv) (had : r.adopted p = some handle) :
    r.owner.generation handle.id = handle.generation := by
  obtain ⟨sk, -, hhandle, hgen, -⟩ := h.sock_of_adopted had
  calc
    r.owner.generation handle.id = sk.generation := hgen.symm
    _ = (socketOwnerHandle sk).generation := rfl
    _ = handle.generation := by rw [hhandle]

theorem Inv.generation_of_free (h : r.Inv) (had : r.adopted p = some handle) :
    (r.step (.free p registry)).owner.generation handle.id =
      nextGeneration (r.owner.generation handle.id) := by
  obtain ⟨sk, hsk, -⟩ := h.sock_of_adopted had
  obtain ⟨entry, ⟨hoff, -⟩ | ⟨other, had', hstep⟩⟩ :=
    h.free_cases (isSome_iff_exists.mpr ⟨sk, hsk⟩) registry
  · rw [hoff] at had
    simp at had
  · obtain rfl := Option.some.inj (had'.symm.trans had)
    have hlt := SlotOwner.at?_some_lt (h.adopted had)
    have hset := SlotOwner.getD_set (h.generations ▸ hlt)
      (nextGeneration (r.owner.generation other.id)) other.id
    rw [hstep]
    exact hset.trans (if_pos rfl)

/-- A released handle that resolves again has seen its slot go through every nonzero generation. -/
theorem Inv.stale_handle (h : r.Inv) {q : Nat} {later : List SlotEvent}
    (had : r.adopted p = some handle)
    (hrun : slotSystem.Admissible ok r (.free p registry :: later))
    (hfound : (slotSystem.run r (.free p registry :: later)).owner.lookup handle = some q)
    (hv : v ≠ 0) :
    ∃ earlier, earlier <+: later ∧
      (slotSystem.run r (.free p registry :: earlier)).owner.generation handle.id = v := by
  have hfreed : (r.step (.free p registry)).Inv := h.step hrun.1
  have hnext : (r.step (.free p registry)).owner.generation handle.id =
      nextGeneration (r.owner.generation handle.id) := h.generation_of_free had
  have hnonzero : (r.step (.free p registry)).owner.generation handle.id ≠ 0 :=
    hnext ▸ nextGeneration_ne_zero _
  obtain ⟨n, hend, hpassed⟩ := hfreed.generation_run hrun.2.2 hnonzero
  rw [hnext] at hend hpassed
  -- the occupant found at the end has the generation of the released handle
  have hback : nextGeneration^[n] (nextGeneration (r.owner.generation handle.id)) =
      r.owner.generation handle.id := by
    have hlast := (hfreed.run hrun.2.2).lookup_iff handle q
    calc
      _ = _ := hend.symm
      _ = handle.generation :=
        (hfreed.run hrun.2.2).generation_of_adopted (hlast.mp hfound)
      _ = r.owner.generation handle.id := (h.generation_of_adopted had).symm
  obtain ⟨k, hk, hvalue⟩ := nextGeneration_round hback hv
  obtain ⟨earlier, hsub, hat⟩ := hpassed k hk
  exact ⟨earlier, hsub, hat.trans hvalue⟩

end SlotRun

/-- In every state reached, the ids on the stack and the ids of the occupied slots are the ids of
the table, none twice and none in both; a handle resolves to a socket exactly when the socket is
adopted under it; and a handle whose socket has been freed resolves again only after its slot has
gone through all nonzero generations. -/
theorem slot_handles_sound {r : SlotRun} (h : slotSystem.Reach (fun _ _ => True) r) :
    (r.owner.freeIds.Nodup ∧ ∀ id,
      (id ∈ r.owner.freeIds ↔ id < r.owner.slotCapacity ∧ r.owner.at? id = none) ∧
      (r.owner.at? id ≠ none → id < r.owner.slotCapacity)) ∧
    (∀ handle p, r.owner.lookup handle = some p ↔ r.adopted p = some handle) ∧
    (∀ p handle, r.adopted p = some handle → ∀ registry later,
      slotSystem.Admissible (fun _ _ => True) r (.free p registry :: later) →
      ∀ q, (slotSystem.run r (.free p registry :: later)).owner.lookup handle = some q →
        ∀ v : BitVec 32, v ≠ 0 → ∃ earlier, earlier <+: later ∧
          (slotSystem.run r (.free p registry :: earlier)).owner.generation handle.id = v) := by
  have hinv := SlotRun.reach_inv h
  refine ⟨⟨hinv.nodup, ?_⟩, hinv.lookup_iff, ?_⟩
  · intro id
    refine ⟨hinv.free id, ?_⟩
    intro hbusy
    obtain ⟨p, hp⟩ := ne_none_iff_exists'.mp hbusy
    exact SlotOwner.at?_some_lt hp
  · intro p handle had registry later hrun q hfound v hv
    exact hinv.stale_handle had hrun hfound hv

/-- A socket, its release and its successor in the same slot: the old handle is stale. -/
theorem slot_handles_sound_reused_slot :
    let start : SlotRun := ⟨.init 3 2, fun _ => none⟩
    let r := slotSystem.run start
      [.alloc 10 6, .adopt 10, .free 10 true, .alloc 10 6, .adopt 10]
    r.owner.freeIds = [1] ∧ r.owner.lookup ⟨0, 1, 3, 6⟩ = none ∧
      (r.owner.lookup ⟨0, 2, 3, 6⟩ = some 10 ↔ r.adopted 10 = some ⟨0, 2, 3, 6⟩) := by
  refine ⟨by decide, by decide, ?_⟩
  have hreach : slotSystem.Reach (fun _ _ => True)
      (slotSystem.run (⟨.init 3 2, fun _ => none⟩ : SlotRun)
        [.alloc 10 6, .adopt 10, .free 10 true, .alloc 10 6, .adopt 10]) := by
    apply System.Reach.run
    · exact .init ⟨3, 2, by decide, by decide, rfl⟩
    · exact ⟨rfl, trivial, rfl, trivial, rfl, trivial, rfl, trivial, rfl, trivial, trivial⟩
  exact (slot_handles_sound hreach).2.1 ⟨0, 2, 3, 6⟩ 10

end SnowTG.Owner
