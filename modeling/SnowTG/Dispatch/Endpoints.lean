import SnowTG.Dispatch.FlowEntries
import SnowTG.Lib.ProbeTable

/-!
# The endpoint table of the receive dispatcher

Bound and listening endpoints are registered with the worker that owns them in a
table of one word a slot.  A word is the identity of the endpoint with the owner
in its low byte, so the table is a probe table from identities to owners.
-/

namespace SnowTG.Dispatch

open SnowTG.Lib Function Option

/-- `RX_DISPATCH_ENDPOINT_TABLE_SIZE`. -/
def endpointTableSize : Nat := 16384

/-- `IPPROTO_UDP`. -/
def ipprotoUdp : BitVec 8 := 17

/-- What an endpoint is registered under. -/
structure EndpointKey where
  protocol : BitVec 8
  localIp : BitVec 32
  localPort : BitVec 16
  deriving DecidableEq, Repr

/-- `rx_dispatch_endpoint_start`. -/
def endpointStart (identity : BitVec 64) : Nat := (mix64 identity).toNat % endpointTableSize

namespace EndpointKey

/-- `rx_dispatch_endpoint_identity`. -/
def identity (key : EndpointKey) : BitVec 64 :=
  (key.localIp.setWidth 64 <<< 32) ||| (key.localPort.setWidth 64 <<< 16) |||
    (key.protocol.setWidth 64 <<< 8)

/-- `rx_dispatch_endpoint_value`. -/
def value (key : EndpointKey) (ownerLcore : BitVec 32) : BitVec 64 :=
  key.identity ||| ownerLcore.setWidth 64

end EndpointKey

/-- What a registration returns. -/
inductive DispatchResult where
  | ok
  | inval
  | again
  | addrInUse
  | noSpace
  deriving DecidableEq, Repr

/-- `g_endpoint_entries`. -/
abbrev EndpointTable := Nat → BitVec 64

/-- The part of an entry that is compared with an identity. -/
def endpointIdentityBits (entry : BitVec 64) : BitVec 64 := entry &&& ~~~ 0xff

namespace EndpointTable

/-- The compare-and-exchange at the end of a registration. -/
def compareExchange (t : EndpointTable) (slot : Nat) (expected value : BitVec 64) :
    EndpointTable × DispatchResult :=
  if t slot = expected then (update t slot value, .ok) else (t, .again)

/-- The loop of `rx_dispatch_register_value`, with the tombstone seen first. -/
def registerValueFrom (t : EndpointTable) (value identity : BitVec 64) (start : Nat) :
    (left probe : Nat) → (reuse : Option Nat) → EndpointTable × DispatchResult
  | 0, _, none => (t, .noSpace)
  | 0, _, some slot => t.compareExchange slot tombstone value
  | left + 1, probe, reuse =>
    let slot := (start + probe) % endpointTableSize
    let entry := t slot
    if entry = 0 then
      match reuse with
      | none => t.compareExchange slot 0 value
      | some slot => t.compareExchange slot tombstone value
    else if entry = tombstone then
      registerValueFrom t value identity start left (probe + 1) (reuse <|> some slot)
    else if endpointIdentityBits entry = identity then
      (t, if entry = value then .ok else .addrInUse)
    else registerValueFrom t value identity start left (probe + 1) reuse

/-- `rx_dispatch_register_value`. -/
def registerValue (t : EndpointTable) (value identity : BitVec 64) (start : Nat) :
    EndpointTable × DispatchResult :=
  t.registerValueFrom value identity start endpointTableSize 0 none

/-- The loop of `rx_dispatch_unregister_value`. -/
def unregisterValueFrom (t : EndpointTable) (value : BitVec 64) (start : Nat) :
    (left probe : Nat) → EndpointTable
  | 0, _ => t
  | left + 1, probe =>
    let slot := (start + probe) % endpointTableSize
    let entry := t slot
    if entry = 0 then t
    else if entry ≠ value then unregisterValueFrom t value start left (probe + 1)
    else (t.compareExchange slot entry tombstone).1

/-- `rx_dispatch_unregister_value`. -/
def unregisterValue (t : EndpointTable) (value : BitVec 64) (start : Nat) : EndpointTable :=
  t.unregisterValueFrom value start endpointTableSize 0

/-- The loop of `rx_dispatch_lookup_endpoint`. -/
def lookupFrom (workers : List (BitVec 32)) (t : EndpointTable) (identity : BitVec 64)
    (start : Nat) : (left probe : Nat) → Option Nat
  | 0, _ => none
  | left + 1, probe =>
    let entry := t ((start + probe) % endpointTableSize)
    if entry = 0 then none
    else if entry ≠ tombstone && endpointIdentityBits entry = identity then
      workerIndex workers ((entry.setWidth 8).setWidth 32)
    else lookupFrom workers t identity start left (probe + 1)

/-- `rx_dispatch_lookup_endpoint`. -/
def lookupEndpoint (workers : List (BitVec 32)) (t : EndpointTable) (key : EndpointKey) :
    Option Nat :=
  t.lookupFrom workers key.identity (endpointStart key.identity) endpointTableSize 0

end EndpointTable

/-! ## The words of an entry -/

namespace EndpointKey

variable {key other : EndpointKey} {owner : BitVec 32}

theorem identity_toNat (key : EndpointKey) : key.identity.toNat =
    key.localIp.toNat * 2 ^ 32 + (key.localPort.toNat * 2 ^ 16 + key.protocol.toNat * 2 ^ 8) := by
  have hport := key.localPort.isLt
  have hprotocol := key.protocol.isLt
  have hlow : (key.protocol.setWidth 64 <<< 8).toNat = key.protocol.toNat * 2 ^ 8 := by
    rw [BitVec.toNat_shiftLeft, BitVec.toNat_setWidth, Nat.shiftLeft_eq]
    omega
  have hmid : ((key.localPort.setWidth 64 <<< 16) ||| (key.protocol.setWidth 64 <<< 8)).toNat =
      key.localPort.toNat * 2 ^ 16 + key.protocol.toNat * 2 ^ 8 := by
    rw [toNat_field_or (by decide) (by omega), hlow]
  rw [identity, BitVec.or_assoc, toNat_field_or (by decide) (by omega), hmid]

theorem value_toNat (key : EndpointKey) (howner : owner ≤ 0xff) :
    (key.value owner).toNat = key.identity.toNat + owner.toNat := by
  refine toNat_or_owner (k := 8) ?_ (Nat.lt_succ_of_le howner)
  rw [identity_toNat]
  omega

theorem identity_inj (h : key.identity = other.identity) : key = other := by
  have hnat := congrArg BitVec.toNat h
  rw [identity_toNat, identity_toNat] at hnat
  have hport := key.localPort.isLt
  have hport' := other.localPort.isLt
  have hprotocol := key.protocol.isLt
  have hprotocol' := other.protocol.isLt
  cases key
  cases other
  simp only [mk.injEq, BitVec.toNat_eq] at *
  refine ⟨?_, ?_, ?_⟩ <;> omega

end EndpointKey

theorem endpointIdentityBits_toNat (entry : BitVec 64) :
    (endpointIdentityBits entry).toNat = entry.toNat / 2 ^ 8 * 2 ^ 8 := by
  have hmask : (0xff : BitVec 64) = BitVec.ofNat 64 (2 ^ 8 - 1) := by decide
  rw [endpointIdentityBits, hmask, high_bits_toNat]

/-- The owner in the low byte of an entry. -/
def endpointOwner (entry : BitVec 64) : BitVec 8 := entry.setWidth 8

variable {entry : BitVec 64}

/-- An entry is its identity and its owner. -/
theorem endpoint_ext {entry' : BitVec 64}
    (hidentity : endpointIdentityBits entry = endpointIdentityBits entry')
    (howner : endpointOwner entry = endpointOwner entry') : entry = entry' := by
  have hhigh := congrArg BitVec.toNat hidentity
  have hlow := congrArg BitVec.toNat howner
  rw [endpointIdentityBits_toNat, endpointIdentityBits_toNat] at hhigh
  rw [endpointOwner, endpointOwner, BitVec.toNat_setWidth, BitVec.toNat_setWidth] at hlow
  apply BitVec.eq_of_toNat_eq
  omega

/-- What a word stands for. -/
def endpointCell (entry : BitVec 64) : Cell (BitVec 64) (BitVec 8) :=
  wordCell entry (.entry (endpointIdentityBits entry) (endpointOwner entry))

/-- A word that is to be entered for an identity and an owner. -/
structure EndpointWord (value identity : BitVec 64) (owner : BitVec 8) : Prop where
  identity : endpointIdentityBits value = identity
  owner : endpointOwner value = owner
  nonzero : value ≠ 0
  live : value ≠ tombstone

variable {value identity : BitVec 64}

theorem EndpointWord.cell {owner : BitVec 8} (h : EndpointWord value identity owner) :
    endpointCell value = .entry identity owner := by
  rw [endpointCell, wordCell_of_live h.nonzero h.live, h.identity, h.owner]

/-- Entries are compared as words. -/
theorem EndpointWord.eq_iff {owner : BitVec 8} (h : EndpointWord value identity owner)
    (hidentity : endpointIdentityBits entry = identity) :
    entry = value ↔ endpointOwner entry = owner := by
  constructor
  · rintro rfl
    exact h.owner
  · intro howner
    exact endpoint_ext (hidentity.trans h.identity.symm) (howner.trans h.owner.symm)

theorem EndpointKey.word (key : EndpointKey) {owner : BitVec 32} (howner : owner ≤ 0xff)
    (hnonzero : key.value owner ≠ 0) (hlive : key.value owner ≠ tombstone) :
    EndpointWord (key.value owner) key.identity (owner.setWidth 8) := by
  have hlow : owner.toNat < 2 ^ 8 := Nat.lt_succ_of_le howner
  have hnat := key.value_toNat howner
  have hidentity := key.identity_toNat
  refine ⟨?_, ?_, hnonzero, hlive⟩
  · apply BitVec.eq_of_toNat_eq
    rw [endpointIdentityBits_toNat, hnat]
    omega
  · apply BitVec.eq_of_toNat_eq
    rw [endpointOwner, BitVec.toNat_setWidth, BitVec.toNat_setWidth, hnat]
    omega

/-- The protocol keeps an entry apart from the special words. -/
theorem EndpointKey.value_live (key : EndpointKey) {owner : BitVec 32} (howner : owner ≤ 0xff)
    (hprotocol : key.protocol ≠ 0) (hother : key.protocol ≠ 0xff) :
    key.value owner ≠ 0 ∧ key.value owner ≠ tombstone := by
  have hlow : owner.toNat < 2 ^ 8 := Nat.lt_succ_of_le howner
  have hnat := key.value_toNat howner
  have hidentity := key.identity_toNat
  have hpos : key.protocol.toNat ≠ 0 := fun heq => hprotocol (BitVec.eq_of_toNat_eq heq)
  have hmax : key.protocol.toNat ≠ 255 := fun heq => hother (BitVec.eq_of_toNat_eq heq)
  constructor
  · intro heq
    have hzero := congrArg BitVec.toNat heq
    rw [hnat, show (0 : BitVec 64).toNat = 0 from rfl] at hzero
    omega
  · intro heq
    have hones := congrArg BitVec.toNat heq
    rw [hnat, tombstone, BitVec.toNat_allOnes] at hones
    omega

/-! ## The table as a probe table -/

namespace EndpointTable

variable {t : EndpointTable} {value identity : BitVec 64} {owner : BitVec 8} {slot left probe : Nat}

/-- What the words of the table stand for. -/
def cells (t : EndpointTable) : ProbeTable (BitVec 64) (BitVec 8) := endpointCell ∘ t

theorem cells_update (slot : Nat) (entry : BitVec 64) :
    cells (update t slot entry) = update t.cells slot (endpointCell entry) :=
  comp_update ..

theorem cells_eq_empty : t.cells slot = .empty ↔ t slot = 0 := wordCell_eq_empty

theorem cells_eq_tomb : t.cells slot = .tomb ↔ t slot = tombstone := wordCell_eq_tomb

theorem cells_eq_entry (hzero : t slot ≠ 0) (htomb : t slot ≠ tombstone) :
    t.cells slot = .entry (endpointIdentityBits (t slot)) (endpointOwner (t slot)) :=
  wordCell_of_live hzero htomb

/-- What a registration of the probe table returns, as the dispatcher does. -/
def result : Registered → DispatchResult
  | .ok => .ok
  | .inUse => .addrInUse
  | .full => .noSpace

section

variable (hword : EndpointWord value identity owner)
include hword

theorem registerValueFrom_cells {reuse : Option Nat}
    (hreuse : ∀ s, reuse = some s → t s = tombstone) :
    let done := ProbeTable.registerFrom endpointTableSize endpointStart t.cells identity owner
      left probe reuse
    let after := t.registerValueFrom value identity (endpointStart identity) left probe reuse
    after.1.cells = done.1 ∧ after.2 = result done.2 := by
  induction left generalizing probe reuse with
  | zero =>
    cases reuse with
    | none => exact ⟨rfl, rfl⟩
    | some slot =>
      simp only [registerValueFrom, compareExchange, if_pos (hreuse slot rfl),
        ProbeTable.registerFrom, cells_update, hword.cell]
      exact ⟨trivial, rfl⟩
  | succ left ih =>
    obtain ⟨slot, hslot⟩ : ∃ slot, (endpointStart identity + probe) % endpointTableSize = slot :=
      ⟨_, rfl⟩
    simp only [registerValueFrom, ProbeTable.registerFrom, ProbeTable.slot, hslot]
    by_cases hzero : t slot = 0
    · rw [cells_eq_empty.mpr hzero, if_pos hzero]
      cases reuse with
      | none =>
        simp only [compareExchange, if_pos hzero, cells_update, hword.cell, getD_none]
        exact ⟨trivial, rfl⟩
      | some first =>
        simp only [compareExchange, if_pos (hreuse first rfl), cells_update, hword.cell, getD_some]
        exact ⟨trivial, rfl⟩
    · by_cases htomb : t slot = tombstone
      · rw [cells_eq_tomb.mpr htomb, if_neg hzero, if_pos htomb]
        apply ih
        intro s hs
        cases reuse with
        | none =>
          obtain rfl := Option.some.inj hs
          exact htomb
        | some first => exact hreuse s hs
      · rw [cells_eq_entry hzero htomb, if_neg hzero, if_neg htomb]
        by_cases hsame : endpointIdentityBits (t slot) = identity
        · simp only [if_pos hsame, hword.eq_iff hsame]
          refine ⟨trivial, ?_⟩
          split_ifs <;> rfl
        · simp only [if_neg hsame]
          exact ih hreuse

/-- `rx_dispatch_register_value` is the registration of the probe table. -/
theorem registerValue_cells :
    (t.registerValue value identity (endpointStart identity)).1.cells =
        (ProbeTable.register endpointTableSize endpointStart t.cells identity owner).1 ∧
      (t.registerValue value identity (endpointStart identity)).2 =
        result (ProbeTable.register endpointTableSize endpointStart t.cells identity owner).2 := by
  apply registerValueFrom_cells hword
  intro s hs
  simp at hs

theorem unregisterValueFrom_cells :
    cells (t.unregisterValueFrom value (endpointStart identity) left probe) =
      ProbeTable.unregisterFrom endpointTableSize endpointStart t.cells identity owner
        left probe := by
  induction left generalizing probe with
  | zero => rfl
  | succ left ih =>
    obtain ⟨slot, hslot⟩ : ∃ slot, (endpointStart identity + probe) % endpointTableSize = slot :=
      ⟨_, rfl⟩
    simp only [unregisterValueFrom, ProbeTable.unregisterFrom, ProbeTable.slot, hslot]
    by_cases hzero : t slot = 0
    · rw [cells_eq_empty.mpr hzero, if_pos hzero]
    · by_cases htomb : t slot = tombstone
      · have hother : tombstone ≠ value := hword.live.symm
        rw [cells_eq_tomb.mpr htomb, if_neg hzero, htomb, if_pos hother]
        exact ih
      · rw [cells_eq_entry hzero htomb, if_neg hzero]
        by_cases hsame : t slot = value
        · have hidentity : endpointIdentityBits (t slot) = identity := by
            rw [hsame, hword.identity]
          have howner : endpointOwner (t slot) = owner := by rw [hsame, hword.owner]
          have htombCell : endpointCell tombstone = .tomb := wordCell_eq_tomb.mpr rfl
          rw [if_neg (not_not.mpr hsame), compareExchange, if_pos rfl, cells_update, htombCell]
          exact (if_pos ⟨hidentity, howner⟩).symm
        · have hother : ¬ (endpointIdentityBits (t slot) = identity ∧
              endpointOwner (t slot) = owner) := by
            rintro ⟨hidentity, howner⟩
            exact hsame ((hword.eq_iff hidentity).mpr howner)
          simp only [ne_eq, hsame, not_false_eq_true, if_true, if_neg hother]
          exact ih

/-- `rx_dispatch_unregister_value` is the unregistration of the probe table. -/
theorem unregisterValue_cells :
    cells (t.unregisterValue value (endpointStart identity)) =
      ProbeTable.unregister endpointTableSize endpointStart t.cells identity owner :=
  unregisterValueFrom_cells hword

end

/-- A word that is never entered can be unregistered without effect. -/
theorem unregisterValueFrom_dead (hdead : value = 0 ∨ value = tombstone) (start : Nat) :
    t.unregisterValueFrom value start left probe = t := by
  induction left generalizing probe with
  | zero => rfl
  | succ left ih =>
    simp only [unregisterValueFrom]
    split_ifs with hzero hother
    · rfl
    · exact ih
    · simp only [ne_eq, not_not] at hother
      rcases hdead with rfl | rfl
      · exact absurd hother hzero
      · simp only [compareExchange, if_true]
        rw [← hother, update_eq_self]

theorem lookupFrom_cells (workers : List (BitVec 32)) :
    t.lookupFrom workers identity (endpointStart identity) left probe =
      (ProbeTable.lookupFrom endpointTableSize endpointStart t.cells identity left probe).bind
        fun owner => workerIndex workers (owner.setWidth 32) := by
  induction left generalizing probe with
  | zero => rfl
  | succ left ih =>
    obtain ⟨slot, hslot⟩ : ∃ slot, (endpointStart identity + probe) % endpointTableSize = slot :=
      ⟨_, rfl⟩
    simp only [lookupFrom, ProbeTable.lookupFrom, ProbeTable.slot, hslot]
    by_cases hzero : t slot = 0
    · rw [cells_eq_empty.mpr hzero, if_pos hzero]
      rfl
    · by_cases htomb : t slot = tombstone
      · rw [cells_eq_tomb.mpr htomb, if_neg hzero, htomb]
        simpa using ih
      · rw [cells_eq_entry hzero htomb, if_neg hzero]
        by_cases hsame : endpointIdentityBits (t slot) = identity
        · simp only [hsame, htomb, if_true, ne_eq, not_false_eq_true, decide_true,
            Bool.and_true, bind_some, endpointOwner]
        · simp only [hsame, if_false, decide_false, Bool.and_false, Bool.false_eq_true]
          exact ih

/-- `rx_dispatch_lookup_endpoint` finds what the probe table holds. -/
theorem lookupEndpoint_cells (workers : List (BitVec 32)) (key : EndpointKey) :
    t.lookupEndpoint workers key =
      (ProbeTable.lookup endpointTableSize endpointStart t.cells key.identity).bind
        fun owner => workerIndex workers (owner.setWidth 32) :=
  lookupFrom_cells workers

end EndpointTable

end SnowTG.Dispatch
