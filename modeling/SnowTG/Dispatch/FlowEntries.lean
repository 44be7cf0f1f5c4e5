import SnowTG.Dispatch.FlowTable
import SnowTG.Lib.ProbeTable

/-!
# The words of a slot

An entry is the sum of disjoint fields, so it gives back the ports and the owner it
was made of, and is neither free nor a tombstone.  The words of the slots stand for
the cells of a probe table from addresses and ports to owners.
-/

namespace SnowTG.Dispatch

open SnowTG.Lib Function

/-- The bits of a word from bit `k` on. -/
theorem high_bits_toNat (k : Nat) (entry : BitVec 64) :
    (entry &&& ~~~ BitVec.ofNat 64 (2 ^ k - 1)).toNat = entry.toNat / 2 ^ k * 2 ^ k := by
  have hshift : entry &&& ~~~ BitVec.ofNat 64 (2 ^ k - 1) = (entry >>> k) <<< k := by
    refine BitVec.eq_of_getLsbD_eq fun i hi => ?_
    have hmask : (BitVec.ofNat 64 (2 ^ k - 1)).getLsbD i = decide (i < k) := by
      rw [BitVec.getLsbD_ofNat, Nat.testBit_two_pow_sub_one, decide_eq_true hi, Bool.true_and]
    rw [BitVec.getLsbD_and, BitVec.getLsbD_not, hmask, BitVec.getLsbD_shiftLeft,
      BitVec.getLsbD_ushiftRight]
    by_cases hlow : i < k
    · simp [hlow]
    · simp [hlow, hi, Nat.add_sub_cancel' (Nat.le_of_not_lt hlow)]
  have hle : entry.toNat / 2 ^ k * 2 ^ k ≤ entry.toNat := Nat.div_mul_le_self _ _
  rw [hshift, BitVec.toNat_shiftLeft, BitVec.toNat_ushiftRight, Nat.shiftLeft_eq,
    Nat.shiftRight_eq_div_pow, Nat.mod_eq_of_lt (lt_of_le_of_lt hle entry.isLt)]

theorem identityBits_toNat (entry : BitVec 64) :
    (identityBits entry).toNat = entry.toNat / 2 ^ 16 * 2 ^ 16 := by
  have hmask : (0xffff : BitVec 64) = BitVec.ofNat 64 (2 ^ 16 - 1) := by decide
  rw [identityBits, hmask, high_bits_toNat]

/-- A field above `k` bits that are filled by the rest. -/
theorem toNat_field_or {w k : Nat} {field : BitVec w} {rest : BitVec 64} (hk : w + k ≤ 64)
    (hrest : rest.toNat < 2 ^ k) :
    ((field.setWidth 64 <<< k) ||| rest).toNat = field.toNat * 2 ^ k + rest.toNat := by
  have hfield : field.toNat * 2 ^ k < 2 ^ 64 := by
    calc field.toNat * 2 ^ k < 2 ^ w * 2 ^ k :=
          Nat.mul_lt_mul_of_pos_right field.isLt (Nat.two_pow_pos k)
      _ = 2 ^ (w + k) := (Nat.pow_add 2 w k).symm
      _ ≤ 2 ^ 64 := Nat.pow_le_pow_right (by decide) hk
  have hwidth : field.toNat < 2 ^ 64 :=
    lt_of_le_of_lt (Nat.le_mul_of_pos_right _ (Nat.two_pow_pos k)) hfield
  rw [BitVec.toNat_or, BitVec.toNat_shiftLeft, BitVec.toNat_setWidth, Nat.mod_eq_of_lt hwidth,
    Nat.shiftLeft_eq, Nat.mod_eq_of_lt hfield, ← Nat.shiftLeft_eq,
    ← Nat.shiftLeft_add_eq_or_of_lt hrest]

/-- An owner below `k` bits that an identity leaves free. -/
theorem toNat_or_owner {k : Nat} {word : BitVec 64} {owner : BitVec 32}
    (hfree : 2 ^ k ∣ word.toNat) (howner : owner.toNat < 2 ^ k) :
    (word ||| owner.setWidth 64).toNat = word.toNat + owner.toNat := by
  obtain ⟨n, hn⟩ := hfree
  have hwidth : (owner.setWidth 64).toNat = owner.toNat := by
    rw [BitVec.toNat_setWidth]
    omega
  rw [BitVec.toNat_or, hwidth, hn, ← Nat.two_pow_add_eq_or_of_lt howner]

/-- An owner is kept in a field that is wide enough. -/
theorem setWidth_owner {w : Nat} {owner : BitVec 32} (h : owner.toNat < 2 ^ w) :
    (owner.setWidth w).setWidth 32 = owner := by
  apply BitVec.eq_of_toNat_eq
  rw [BitVec.toNat_setWidth, BitVec.toNat_setWidth, Nat.mod_eq_of_lt h, Nat.mod_eq_of_lt owner.isLt]

namespace FlowKey

variable {key other : FlowKey} {owner : BitVec 32} {entry : FlowSlot}

theorem addresses_toNat (key : FlowKey) :
    key.addresses.toNat = key.remoteIp.toNat * 2 ^ 32 + key.localIp.toNat := by
  have hlocal := key.localIp.isLt
  have hwidth : (key.localIp.setWidth 64).toNat = key.localIp.toNat := by
    rw [BitVec.toNat_setWidth]
    omega
  rw [addresses, toNat_field_or (by decide) (by omega), hwidth]

theorem identity_toNat (key : FlowKey) : key.identity.toNat =
    key.remotePort.toNat * 2 ^ 48 + (key.localPort.toNat * 2 ^ 32 + 6 * 2 ^ 16) := by
  have hlocal := key.localPort.isLt
  have hprotocol : (ipprotoTcp.setWidth 64 <<< 16).toNat = 6 * 2 ^ 16 := by decide
  have hlow : ((key.localPort.setWidth 64 <<< 32) ||| (ipprotoTcp.setWidth 64 <<< 16)).toNat =
      key.localPort.toNat * 2 ^ 32 + 6 * 2 ^ 16 := by
    rw [toNat_field_or (by decide) (by omega), hprotocol]
  rw [identity, BitVec.or_assoc, toNat_field_or (by decide) (by omega), hlow]

theorem value_toNat (key : FlowKey) (howner : owner ≤ 0xffff) :
    (key.value owner).toNat = key.identity.toNat + owner.toNat := by
  refine toNat_or_owner (k := 16) ?_ (Nat.lt_succ_of_le howner)
  rw [identity_toNat]
  omega

theorem eq_of_addresses_identity (haddresses : key.addresses = other.addresses)
    (hidentity : key.identity = other.identity) : key = other := by
  have hips := congrArg BitVec.toNat haddresses
  have hports := congrArg BitVec.toNat hidentity
  rw [addresses_toNat, addresses_toNat] at hips
  rw [identity_toNat, identity_toNat] at hports
  have hremote := key.remotePort.isLt
  have hlocal := key.localPort.isLt
  have hlocalIp := key.localIp.isLt
  have hlocal' := other.localPort.isLt
  have hlocalIp' := other.localIp.isLt
  cases key
  cases other
  simp only [mk.injEq, BitVec.toNat_eq] at *
  refine ⟨?_, ?_, ?_, ?_⟩ <;> omega

theorem identityBits_value (key : FlowKey) (howner : owner ≤ 0xffff) :
    identityBits (key.value owner) = key.identity := by
  have hlow : owner.toNat < 2 ^ 16 := Nat.lt_succ_of_le howner
  apply BitVec.eq_of_toNat_eq
  rw [identityBits_toNat, value_toNat key howner, identity_toNat]
  omega

theorem value_ne_zero (key : FlowKey) (howner : owner ≤ 0xffff) : key.value owner ≠ 0 := by
  intro h
  have hnat := congrArg BitVec.toNat h
  have hzero : (0 : BitVec 64).toNat = 0 := rfl
  rw [value_toNat key howner, identity_toNat, hzero] at hnat
  omega

theorem value_ne_tombstone (key : FlowKey) (howner : owner ≤ 0xffff) :
    key.value owner ≠ tombstone := by
  intro h
  have hlow : owner.toNat < 2 ^ 16 := Nat.lt_succ_of_le howner
  have hnat := congrArg BitVec.toNat h
  rw [value_toNat key howner, identity_toNat, tombstone, BitVec.toNat_allOnes] at hnat
  omega

/-- The entry is one for this key. -/
def Holds (key : FlowKey) (entry : FlowSlot) : Prop :=
  identityBits entry.portsProtocolOwner = key.identity ∧ entry.addresses = key.addresses

instance (key : FlowKey) (entry : FlowSlot) : Decidable (key.Holds entry) :=
  inferInstanceAs (Decidable (_ ∧ _))

theorem Holds.ne_zero (h : key.Holds entry) : entry.portsProtocolOwner ≠ 0 := by
  intro hzero
  have hnat := congrArg BitVec.toNat h.1
  have hbits : (identityBits 0).toNat = 0 := by decide
  rw [hzero, hbits, identity_toNat] at hnat
  omega

theorem Holds.ne_tombstone (h : key.Holds entry) : entry.portsProtocolOwner ≠ tombstone := by
  intro htomb
  have hnat := congrArg BitVec.toNat h.1
  have hbits : (identityBits tombstone).toNat = 2 ^ 64 - 2 ^ 16 := by decide
  rw [htomb, hbits, identity_toNat] at hnat
  omega

end FlowKey

/-- The owner in the low bits of an entry. -/
def flowOwner (entry : BitVec 64) : BitVec 16 := entry.setWidth 16

/-- What the entry of a slot is found under. -/
def FlowSlot.name (entry : FlowSlot) : BitVec 64 × BitVec 64 :=
  (entry.addresses, identityBits entry.portsProtocolOwner)

section

variable {α β : Type} {word : BitVec 64} {name : α} {held : β}

/-- What a word stands for that is an entry unless it is free. -/
def wordCell (word : BitVec 64) (entry : Cell α β) : Cell α β :=
  if word = 0 then .empty else if word = tombstone then .tomb else entry

theorem wordCell_eq_empty : wordCell word (.entry name held) = .empty ↔ word = 0 := by
  rw [wordCell]
  split_ifs with hzero htomb
  · exact iff_of_true rfl hzero
  · exact iff_of_false (by simp) hzero
  · exact iff_of_false (by simp) hzero

theorem wordCell_eq_tomb : wordCell word (.entry name held) = .tomb ↔ word = tombstone := by
  rw [wordCell]
  split_ifs with hzero htomb
  · rw [hzero]
    simp [tombstone]
  · simp [htomb]
  · simp [htomb]

theorem wordCell_of_live {entry : Cell α β} (hzero : word ≠ 0) (htomb : word ≠ tombstone) :
    wordCell word entry = entry := by
  rw [wordCell, if_neg hzero, if_neg htomb]

end

/-- What the words of a slot stand for. -/
def flowCell (entry : FlowSlot) : Cell (BitVec 64 × BitVec 64) (BitVec 16) :=
  wordCell entry.portsProtocolOwner (.entry entry.name (flowOwner entry.portsProtocolOwner))

variable {entry : BitVec 64}

/-- An entry is its identity and its owner. -/
theorem flow_ext {entry' : BitVec 64} (hidentity : identityBits entry = identityBits entry')
    (howner : flowOwner entry = flowOwner entry') : entry = entry' := by
  have hhigh := congrArg BitVec.toNat hidentity
  have hlow := congrArg BitVec.toNat howner
  rw [identityBits_toNat, identityBits_toNat] at hhigh
  rw [flowOwner, flowOwner, BitVec.toNat_setWidth, BitVec.toNat_setWidth] at hlow
  apply BitVec.eq_of_toNat_eq
  omega

namespace FlowKey

/-- What a key is looked up under. -/
def name (key : FlowKey) : BitVec 64 × BitVec 64 := (key.addresses, key.identity)

theorem name_inj {key other : FlowKey} (h : key.name = other.name) : key = other :=
  eq_of_addresses_identity (congrArg Prod.fst h) (congrArg Prod.snd h)

variable {owner : BitVec 32}

theorem flowOwner_value (key : FlowKey) (howner : owner ≤ 0xffff) :
    flowOwner (key.value owner) = owner.setWidth 16 := by
  apply BitVec.eq_of_toNat_eq
  rw [flowOwner, BitVec.toNat_setWidth, BitVec.toNat_setWidth, value_toNat key howner, identity_toNat]
  omega

theorem value_owner (key : FlowKey) (howner : owner ≤ 0xffff) :
    ((key.value owner).setWidth 16).setWidth 32 = owner := by
  rw [← flowOwner, flowOwner_value key howner, setWidth_owner (Nat.lt_succ_of_le howner)]

/-- Entries are compared as words. -/
theorem eq_value_iff (key : FlowKey) (howner : owner ≤ 0xffff)
    (hidentity : identityBits entry = key.identity) :
    entry = key.value owner ↔ flowOwner entry = owner.setWidth 16 := by
  constructor
  · rintro rfl
    exact key.flowOwner_value howner
  · intro heq
    apply flow_ext
    · rw [hidentity, key.identityBits_value howner]
    · rw [heq, key.flowOwner_value howner]

end FlowKey

/-- The home of a key. -/
def flowHome (name : BitVec 64 × BitVec 64) : Nat := flowStart name.1 name.2

namespace FlowTable

variable {t : FlowTable} {key : FlowKey} {owner : BitVec 32} {slot s : Nat}

/-- What the slots of the table stand for. -/
def cells (t : FlowTable) : ProbeTable (BitVec 64 × BitVec 64) (BitVec 16) := flowCell ∘ t

theorem cells_eq_empty : t.cells slot = .empty ↔ (t slot).portsProtocolOwner = 0 :=
  wordCell_eq_empty

theorem cells_eq_tomb : t.cells slot = .tomb ↔ (t slot).portsProtocolOwner = tombstone :=
  wordCell_eq_tomb

theorem cells_eq_entry (hzero : (t slot).portsProtocolOwner ≠ 0)
    (htomb : (t slot).portsProtocolOwner ≠ tombstone) :
    t.cells slot = .entry (t slot).name (flowOwner (t slot).portsProtocolOwner) :=
  wordCell_of_live hzero htomb

theorem probe_slot (key : FlowKey) (probe : Nat) :
    ProbeTable.slot flowTableSize flowHome key.name probe = key.slot probe :=
  rfl

@[simp] theorem setValue_portsProtocolOwner (value : BitVec 64) :
    (t.setValue slot value s).portsProtocolOwner =
      if s = slot then value else (t s).portsProtocolOwner := by
  rw [setValue]
  split_ifs <;> rfl

@[simp] theorem setValue_addresses (value : BitVec 64) :
    (t.setValue slot value s).addresses = (t s).addresses := by
  rw [setValue]
  split_ifs <;> rfl

@[simp] theorem setAddresses_portsProtocolOwner (addresses : BitVec 64) :
    (t.setAddresses slot addresses s).portsProtocolOwner = (t s).portsProtocolOwner := by
  rw [setAddresses]
  split_ifs <;> rfl

@[simp] theorem setAddresses_addresses (addresses : BitVec 64) :
    (t.setAddresses slot addresses s).addresses =
      if s = slot then addresses else (t s).addresses := by
  rw [setAddresses]
  split_ifs <;> rfl

/-- What a slot holds of a key. -/
theorem cells_eq_key_iff {held : BitVec 16} : t.cells s = .entry key.name held ↔
    key.Holds (t s) ∧ flowOwner (t s).portsProtocolOwner = held := by
  constructor
  · intro h
    have hzero : (t s).portsProtocolOwner ≠ 0 := fun hzero => by
      rw [cells_eq_empty.mpr hzero] at h
      cases h
    have htomb : (t s).portsProtocolOwner ≠ tombstone := fun htomb => by
      rw [cells_eq_tomb.mpr htomb] at h
      cases h
    rw [cells_eq_entry hzero htomb, Cell.entry.injEq] at h
    exact ⟨⟨congrArg Prod.snd h.1, congrArg Prod.fst h.1⟩, h.2⟩
  · rintro ⟨hholds, rfl⟩
    rw [cells_eq_entry hholds.ne_zero hholds.ne_tombstone, FlowSlot.name, hholds.1, hholds.2]
    rfl

/-- The entry of a key and its owner. -/
theorem cells_eq_value_iff (howner : owner ≤ 0xffff) :
    t.cells s = .entry key.name (owner.setWidth 16) ↔ t s = ⟨key.addresses, key.value owner⟩ := by
  rw [cells_eq_key_iff]
  constructor
  · rintro ⟨⟨hidentity, haddresses⟩, hheld⟩
    rw [← haddresses, ← (key.eq_value_iff howner hidentity).mpr hheld]
  · intro h
    rw [h]
    exact ⟨⟨key.identityBits_value howner, rfl⟩, key.flowOwner_value howner⟩

theorem cells_setValue (value : BitVec 64) :
    cells (t.setValue s value) = update t.cells s (flowCell ⟨(t s).addresses, value⟩) := by
  ext1 s'
  by_cases hs : s' = s
  · rw [hs, update_self, cells, comp, setValue, if_pos rfl]
  · rw [update_of_ne hs, cells, cells, comp, comp, setValue, if_neg hs]

theorem cells_clear : cells (t.setValue s 0) = update t.cells s .empty := cells_setValue 0

theorem cells_erase : cells (t.setValue s tombstone) = update t.cells s .tomb := by
  rw [cells_setValue, flowCell, wordCell, if_neg (show tombstone ≠ 0 by decide), if_pos rfl]

theorem cells_fill (haddresses : (t s).addresses = key.addresses) (howner : owner ≤ 0xffff) :
    cells (t.setValue s (key.value owner)) =
      update t.cells s (.entry key.name (owner.setWidth 16)) := by
  rw [cells_setValue, flowCell, wordCell, if_neg (key.value_ne_zero howner),
    if_neg (key.value_ne_tombstone howner), FlowSlot.name, haddresses, key.identityBits_value howner,
    key.flowOwner_value howner, FlowKey.name]

theorem cells_setAddresses (hzero : (t s).portsProtocolOwner = 0) (addresses : BitVec 64) :
    cells (t.setAddresses s addresses) = t.cells := by
  ext1 s'
  by_cases hs : s' = s
  · rw [hs, cells_eq_empty.mpr hzero, cells_eq_empty, setAddresses_portsProtocolOwner, hzero]
  · rw [cells, cells, comp, comp, setAddresses, if_neg hs]

end FlowTable

theorem FlowKey.slot_inj {key : FlowKey} {probe probe' : Nat} (hlt : probe < flowTableSize)
    (hlt' : probe' < flowTableSize) (h : key.slot probe = key.slot probe') : probe = probe' := by
  rw [← FlowTable.probe_slot, ← FlowTable.probe_slot] at h
  exact ProbeTable.slot_inj hlt hlt' h

end SnowTG.Dispatch
