import SnowTG.Dispatch.FlowEntries

/-!
# Where the keys are

A registered key lies on its probe path, and no slot before it is free, except one
that a registration has cleared and not filled yet.  Every store of a registration or
an unregistration keeps this for all keys.
-/

namespace SnowTG.Dispatch

open SnowTG.Lib Function

/-- The key is registered in the slot of probe `d`, and nowhere else.  Only the slot `hole` may be
free before it. -/
structure Placed (t : FlowTable) (key : FlowKey) (owner : BitVec 32) (hole : Option Nat)
    (d : Nat) : Prop where
  small : owner ≤ 0xffff
  cell : ProbeTable.Placed flowTableSize flowHome hole t.cells key.name (owner.setWidth 16) d

/-- Every entry of the table is where the probes of its key find it. -/
abbrev FlowTable.Sound (t : FlowTable) (hole : Option Nat) : Prop :=
  ProbeTable.Sound flowTableSize flowHome hole t.cells

/-- A registration may put its key into this slot. -/
abbrev FlowTable.Target (t : FlowTable) (key : FlowKey) : Nat → Prop :=
  ProbeTable.Target flowTableSize flowHome t.cells key.name

/-- What a registration has found out on its first probes. -/
abbrev FlowTable.Probed (t : FlowTable) (key : FlowKey) : Nat → Option Nat → Prop :=
  ProbeTable.Probed flowTableSize flowHome t.cells key.name

/-- The entries of the key are the same in both tables. -/
def Untouched (key : FlowKey) (t t' : FlowTable) : Prop :=
  ∀ s held, t'.cells s = .entry key.name held ↔ t.cells s = .entry key.name held

section Placed

variable {t : FlowTable} {key : FlowKey} {owner : BitVec 32} {hole : Option Nat} {d n s : Nat}

theorem Placed.lt (h : Placed t key owner hole d) : d < flowTableSize := h.cell.lt

theorem Placed.entry (h : Placed t key owner hole d) :
    t (key.slot d) = ⟨key.addresses, key.value owner⟩ :=
  (FlowTable.cells_eq_value_iff h.small).mp h.cell.here

theorem Placed.sole (h : Placed t key owner hole d) (hholds : key.Holds (t s)) : s = key.slot d :=
  h.cell.sole s _ (FlowTable.cells_eq_key_iff.mpr ⟨hholds, rfl⟩)

/-- No slot up to the entry is free. -/
theorem Placed.occupied (h : Placed t key owner none d) (hle : n ≤ d) :
    (t (key.slot n)).portsProtocolOwner ≠ 0 := by
  intro hzero
  rcases Nat.lt_or_eq_of_le hle with hlt | rfl
  · exact absurd (h.cell.path n hlt (FlowTable.cells_eq_empty.mpr hzero)) nofun
  · rw [h.entry] at hzero
    exact key.value_ne_zero h.small hzero

end Placed

/-- What holds where a registration is. -/
def RegisterPc.Inv (t : FlowTable) (key : FlowKey) : RegisterPc → Prop
  | .probe n reuse => n < flowTableSize ∧ t.Probed key n reuse
  | .compare n reuse entry => n < flowTableSize ∧ t.Probed key n reuse ∧
      entry = (t (key.slot n)).portsProtocolOwner ∧ identityBits entry = key.identity
  | .clear s => t.Target key s
  | .address s => t.Target key s ∧ (t s).portsProtocolOwner = 0
  | .publish s => t.Target key s ∧ (t s).addresses = key.addresses

/-- What holds where an unregistration is. -/
def UnregisterPc.Inv (t : FlowTable) (key : FlowKey) (owner : BitVec 32) : UnregisterPc → Prop
  | .probe n => n < flowTableSize ∧
      ∀ j < n, t (key.slot j) ≠ ⟨key.addresses, key.value owner⟩
  | .compare n => n < flowTableSize ∧
      (∀ j < n, t (key.slot j) ≠ ⟨key.addresses, key.value owner⟩) ∧
      (t (key.slot n)).portsProtocolOwner = key.value owner
  | .erase s => t s = ⟨key.addresses, key.value owner⟩

/-- The slot that a registration has cleared and not filled yet. -/
def Writer.hole : Writer → Option Nat
  | .registering _ _ (.address s) | .registering _ _ (.publish s) => some s
  | _ => none

/-- Where `registerProbe` goes on. -/
theorem registerProbe_inv {t : FlowTable} {key : FlowKey} {n : Nat} {reuse : Option Nat}
    (h : t.Probed key n reuse) (hsound : t.Sound none) (hle : n ≤ flowTableSize) {pc : RegisterPc}
    (hgoto : registerProbe n reuse = .goto pc) :
    pc.Inv t key ∧ ∀ s, pc ≠ .address s ∧ pc ≠ .publish s := by
  rw [registerProbe.eq_def] at hgoto
  split_ifs at hgoto with hlt
  · cases hgoto
    exact ⟨⟨hlt, h⟩, fun s => ⟨nofun, nofun⟩⟩
  · cases reuse with
    | none => cases hgoto
    | some slot =>
      cases hgoto
      exact ⟨h.reused hle (h.absent hsound fun hwrong => absurd hwrong hlt),
        fun s => ⟨nofun, nofun⟩⟩

/-- The table agrees with what the calls for the key have returned. -/
structure Registered (workers : List (BitVec 32)) (t : FlowTable) (target : FlowKey)
    (registered : Option (BitVec 32)) : Prop where
  agree : ∀ s held, t.cells s = .entry target.name held → registered = some (held.setWidth 32)
  live : ∀ owner, registered = some owner →
    (∃ s, t.cells s = .entry target.name (owner.setWidth 16)) ∧ owner ≤ 0xffff ∧
      (workerIndex workers owner).isSome

/-- What one step of an operation on `key` does to the table and to the cleared slot. -/
inductive WriterStore (t : FlowTable) (key : FlowKey) : Option Nat → FlowTable → Option Nat → Prop
  | load : WriterStore t key none t none
  | clear (s : Nat) : ProbeTable.Vacant t.cells s →
      WriterStore t key none (t.setValue s 0) (some s)
  | address (s : Nat) (addresses : BitVec 64) : (t s).portsProtocolOwner = 0 →
      WriterStore t key (some s) (t.setAddresses s addresses) (some s)
  | publish (s : Nat) (owner : BitVec 32) : t.Target key s → (t s).addresses = key.addresses →
      owner ≤ 0xffff → WriterStore t key (some s) (t.setValue s (key.value owner)) none
  | erase (s : Nat) (held : BitVec 16) : t.cells s = .entry key.name held →
      WriterStore t key none (t.setValue s tombstone) none

section WriterStores

variable {workers : List (BitVec 32)} {t t' : FlowTable} {key target : FlowKey}
variable {owner : BitVec 32} {hole hole' : Option Nat} {d s : Nat}
variable {registered : Option (BitVec 32)}

theorem Untouched.refl (key : FlowKey) (t : FlowTable) : Untouched key t t := fun _ _ => .rfl

theorem Untouched.clear (key : FlowKey) (hvacant : ProbeTable.Vacant t.cells s) :
    Untouched key t (t.setValue s 0) := by
  rw [Untouched, FlowTable.cells_clear]
  exact ProbeTable.entry_update_iff (hvacant.not_entry _) (by simp)

theorem Untouched.address (key : FlowKey) (hzero : (t s).portsProtocolOwner = 0)
    (addresses : BitVec 64) : Untouched key t (t.setAddresses s addresses) := by
  rw [Untouched, FlowTable.cells_setAddresses hzero]
  exact fun _ _ => .rfl

theorem WriterStore.sound (h : WriterStore t key hole t' hole') (hsound : t.Sound hole) :
    t'.Sound hole' := by
  cases h with
  | load => exact hsound
  | clear s hvacant =>
    rw [FlowTable.Sound, FlowTable.cells_clear]
    exact hsound.clear hvacant
  | address s addresses hzero =>
    rw [FlowTable.Sound, FlowTable.cells_setAddresses hzero]
    exact hsound
  | publish s owner htarget haddresses hsmall =>
    rw [FlowTable.Sound, FlowTable.cells_fill haddresses hsmall]
    exact hsound.insert (fun s' hs' => (Option.some.inj hs').symm) htarget _
  | erase s held hhere =>
    rw [FlowTable.Sound, FlowTable.cells_erase]
    exact hsound.erase hhere

/-- An operation leaves the entries of other keys alone. -/
theorem WriterStore.untouched (h : WriterStore t key hole t' hole') (hne : target ≠ key) :
    Untouched target t t' := by
  have hname : key.name ≠ target.name := fun heq => hne (FlowKey.name_inj heq).symm
  cases h with
  | load => exact .refl target t
  | clear s hvacant => exact .clear target hvacant
  | address s addresses hzero => exact .address target hzero addresses
  | publish s owner htarget haddresses hsmall =>
    rw [Untouched, FlowTable.cells_fill haddresses hsmall]
    exact ProbeTable.entry_update_iff (htarget.vacant.not_entry _) (by simp [hname])
  | erase s held hhere =>
    rw [Untouched, FlowTable.cells_erase]
    exact ProbeTable.entry_update_iff (by simp [hhere, hname]) (by simp)

/-- A slot becomes free only by being cleared. -/
theorem WriterStore.freed (h : WriterStore t key hole t' hole') (hempty : t'.cells s = .empty) :
    t.cells s = .empty ∨ hole = none ∧ hole' = some s := by
  have hother : ∀ {s' : Nat} {cell}, t'.cells = update t.cells s' cell → cell ≠ .empty →
      t.cells s = .empty := by
    intro s' cell hcells hcell
    rw [hcells] at hempty
    by_cases hs : s = s'
    · rw [hs, update_self] at hempty
      exact absurd hempty hcell
    · rwa [update_of_ne hs] at hempty
  cases h with
  | load => exact .inl hempty
  | clear s' hvacant =>
    by_cases hs : s = s'
    · exact .inr ⟨rfl, congrArg some hs.symm⟩
    · rw [FlowTable.cells_clear, update_of_ne hs] at hempty
      exact .inl hempty
  | address s' addresses hzero =>
    rw [FlowTable.cells_setAddresses hzero] at hempty
    exact .inl hempty
  | publish s' owner htarget haddresses hsmall =>
    exact .inl (hother (FlowTable.cells_fill haddresses hsmall) nofun)
  | erase s' held hhere => exact .inl (hother FlowTable.cells_erase nofun)

/-- Addresses are stored to free slots only. -/
theorem WriterStore.addresses (h : WriterStore t key hole t' hole')
    (hoccupied : (t s).portsProtocolOwner ≠ 0) : (t' s).addresses = (t s).addresses := by
  cases h with
  | load => rfl
  | clear | publish | erase => exact FlowTable.setValue_addresses _
  | address s' addresses hzero =>
    rw [FlowTable.setAddresses_addresses, if_neg]
    rintro rfl
    exact hoccupied hzero

theorem Registered.untouched (h : Registered workers t target registered)
    (hsame : Untouched target t t') : Registered workers t' target registered := by
  refine ⟨fun s held hentry => h.agree s held ((hsame s held).mp hentry), fun owner howner => ?_⟩
  obtain ⟨⟨s, hentry⟩, hvalid⟩ := h.live owner howner
  exact ⟨⟨s, (hsame s _).mpr hentry⟩, hvalid⟩

theorem Registered.of_placed (hplaced : Placed t target owner hole d)
    (hworker : (workerIndex workers owner).isSome) : Registered workers t target (some owner) := by
  refine ⟨fun s held hentry => ?_, fun owner' howner => ?_⟩
  · rw [hplaced.cell.sole s held hentry, hplaced.cell.here] at hentry
    cases hentry
    rw [setWidth_owner (Nat.lt_succ_of_le hplaced.small)]
  · obtain rfl := Option.some.inj howner
    exact ⟨⟨_, hplaced.cell.here⟩, hplaced.small, hworker⟩

theorem Registered.of_absent (habsent : ∀ s held, t.cells s ≠ .entry target.name held) :
    Registered workers t target none :=
  ⟨fun s held hentry => absurd hentry (habsent s held), nofun⟩

end WriterStores

section Steps

variable {t t' : FlowTable} {key : FlowKey}
variable {owner : BitVec 32} {n : Nat} {reuse : Option Nat}

/-- Where a step of a registration leads: the store it makes, what holds then, and what its return
value says. -/
def RegisterOutcome (t : FlowTable) (key : FlowKey) (owner : BitVec 32) (hole : Option Nat)
    (t' : FlowTable) : Outcome RegisterPc RegisterResult → Prop
  | .goto pc => WriterStore t key hole t' (Writer.registering key owner pc).hole ∧
      Untouched key t t' ∧ pc.Inv t' key
  | .returned result => WriterStore t key hole t' none ∧
      (result = .ok → ∃ d, Placed t' key owner none d) ∧ (result ≠ .ok → t' = t)

theorem registerProbe_outcome (h : t.Probed key n reuse) (hsound : t.Sound none)
    (hle : n ≤ flowTableSize) : RegisterOutcome t key owner none t (registerProbe n reuse) := by
  cases houtcome : registerProbe n reuse with
  | goto pc =>
    obtain ⟨hpc, hnot⟩ := registerProbe_inv h hsound hle houtcome
    have hhole : (Writer.registering key owner pc).hole = none := by
      cases pc with
      | address s => exact absurd rfl (hnot s).1
      | publish s => exact absurd rfl (hnot s).2
      | _ => rfl
    refine ⟨?_, .refl key t, hpc⟩
    rw [hhole]
    exact .load
  | returned result =>
    refine ⟨.load, fun hok => ?_, fun _ => rfl⟩
    rw [registerProbe.eq_def] at houtcome
    split_ifs at houtcome
    cases reuse with
    | none =>
      cases houtcome
      cases hok
    | some slot => cases houtcome

/-- What one load or store of a registration can do. -/
theorem registerStep_outcome {pc : RegisterPc}
    (hsound : t.Sound (Writer.registering key owner pc).hole) (hsmall : owner ≤ 0xffff)
    (hpc : pc.Inv t key) :
    RegisterOutcome t key owner (Writer.registering key owner pc).hole
      (registerStep t key owner pc).1 (registerStep t key owner pc).2 := by
  cases pc with
  | probe n reuse =>
    obtain ⟨hn, hprobed⟩ := hpc
    simp only [registerStep]
    split_ifs with htomb hzero hidentity
    · exact registerProbe_outcome (hprobed.tomb (FlowTable.cells_eq_tomb.mpr htomb)) hsound
        (Nat.succ_le_of_lt hn)
    · have hempty := FlowTable.cells_eq_empty.mpr hzero
      exact ⟨.load, .refl key t, hprobed.target hn hempty (hprobed.absent hsound fun _ => hempty)⟩
    · exact ⟨.load, .refl key t, hn, hprobed, rfl, hidentity⟩
    · exact registerProbe_outcome (hprobed.entry (FlowTable.cells_eq_entry hzero htomb)
        fun heq => hidentity (congrArg Prod.snd heq)) hsound (Nat.succ_le_of_lt hn)
  | compare n reuse entry =>
    obtain ⟨hn, hprobed, rfl, hidentity⟩ := hpc
    have hlive : key.Holds ⟨key.addresses, (t (key.slot n)).portsProtocolOwner⟩ := ⟨hidentity, rfl⟩
    simp only [registerStep]
    split_ifs with haddresses hvalue
    · refine ⟨.load, fun _ => ?_, fun _ => rfl⟩
      have hentry : t (key.slot n) = ⟨key.addresses, key.value owner⟩ := by
        rw [← haddresses, ← hvalue]
      obtain ⟨d, hplaced⟩ := hsound _ _ _ ((FlowTable.cells_eq_value_iff hsmall).mpr hentry)
      exact ⟨d, hsmall, hplaced⟩
    · exact ⟨.load, nofun, fun _ => rfl⟩
    · exact registerProbe_outcome (hprobed.entry
        (FlowTable.cells_eq_entry hlive.ne_zero hlive.ne_tombstone)
        fun heq => haddresses (congrArg Prod.fst heq)) hsound (Nat.succ_le_of_lt hn)
  | clear s =>
    refine ⟨.clear s hpc.vacant, .clear key hpc.vacant, ?_, ?_⟩
    · rw [FlowTable.Target, registerStep, FlowTable.cells_clear]
      exact hpc.clear
    · exact (FlowTable.setValue_portsProtocolOwner 0).trans (if_pos rfl)
  | address s =>
    obtain ⟨htarget, hzero⟩ := hpc
    refine ⟨.address s key.addresses hzero, .address key hzero key.addresses, ?_, ?_⟩
    · rw [FlowTable.Target, registerStep, FlowTable.cells_setAddresses hzero]
      exact htarget
    · exact (FlowTable.setAddresses_addresses key.addresses).trans (if_pos rfl)
  | publish s =>
    obtain ⟨htarget, haddresses⟩ := hpc
    refine ⟨.publish s owner htarget haddresses hsmall, fun _ => ?_, fun hnot => absurd rfl hnot⟩
    obtain ⟨d, -, hplaced⟩ := htarget.placed (owner.setWidth 16)
    rw [← FlowTable.cells_fill haddresses hsmall] at hplaced
    exact ⟨d, hsmall, hplaced⟩

/-- Where a step of an unregistration leads. -/
def UnregisterOutcome (t : FlowTable) (key : FlowKey) (owner : BitVec 32) (t' : FlowTable) :
    Outcome UnregisterPc Unit → Prop
  | .goto pc => t' = t ∧ pc.Inv t key owner
  | .returned _ => WriterStore t key none t' none ∧
      (t' = t ∧ (∀ s, t s ≠ ⟨key.addresses, key.value owner⟩) ∨
        (∃ s, t s = ⟨key.addresses, key.value owner⟩) ∧
          ∀ s held, t'.cells s ≠ .entry key.name held)

/-- An unregistration that meets a free slot, or has probed all slots, has nothing to erase. -/
theorem unregister_absent (hsound : t.Sound none) (hsmall : owner ≤ 0xffff)
    (hprobed : ∀ j < n, t (key.slot j) ≠ ⟨key.addresses, key.value owner⟩)
    (hend : n < flowTableSize → (t (key.slot n)).portsProtocolOwner = 0) (s : Nat) :
    t s ≠ ⟨key.addresses, key.value owner⟩ := by
  intro heq
  obtain ⟨d, hcell⟩ := hsound s _ _ ((FlowTable.cells_eq_value_iff hsmall).mpr heq)
  have hplaced : Placed t key owner none d := ⟨hsmall, hcell⟩
  exact hprobed d (hcell.lt_of_end fun hn => FlowTable.cells_eq_empty.mpr (hend hn)) hplaced.entry

theorem unregisterProbe_outcome (hsound : t.Sound none) (hsmall : owner ≤ 0xffff)
    (hprobed : ∀ j < n, t (key.slot j) ≠ ⟨key.addresses, key.value owner⟩) :
    UnregisterOutcome t key owner t (unregisterProbe n) := by
  rw [unregisterProbe]
  split_ifs with hlt
  · exact ⟨rfl, hlt, hprobed⟩
  · refine ⟨.load, .inl ⟨rfl, ?_⟩⟩
    exact unregister_absent hsound hsmall hprobed fun h => absurd h hlt

theorem unregisterStep_outcome {pc : UnregisterPc} (hsound : t.Sound none)
    (hsmall : owner ≤ 0xffff) (hpc : pc.Inv t key owner) :
    UnregisterOutcome t key owner (unregisterStep t key owner pc).1
      (unregisterStep t key owner pc).2 := by
  have hnext : ∀ {n}, (∀ j < n, t (key.slot j) ≠ ⟨key.addresses, key.value owner⟩) →
      t (key.slot n) ≠ ⟨key.addresses, key.value owner⟩ →
      ∀ j < n + 1, t (key.slot j) ≠ ⟨key.addresses, key.value owner⟩ := by
    intro n hprobed hhere
    exact Nat.forall_lt_succ_right.mpr ⟨hprobed, hhere⟩
  cases pc with
  | probe n =>
    obtain ⟨hn, hprobed⟩ := hpc
    simp only [unregisterStep]
    split_ifs with hzero hvalue
    · exact ⟨.load, .inl ⟨rfl, unregister_absent hsound hsmall hprobed fun _ => hzero⟩⟩
    · exact ⟨rfl, hn, hprobed, hvalue⟩
    · exact unregisterProbe_outcome hsound hsmall
        (hnext hprobed fun heq => hvalue (congrArg FlowSlot.portsProtocolOwner heq))
  | compare n =>
    obtain ⟨hn, hprobed, hvalue⟩ := hpc
    simp only [unregisterStep]
    split_ifs with haddresses
    · refine ⟨rfl, ?_⟩
      show t (key.slot n) = ⟨key.addresses, key.value owner⟩
      rw [← haddresses, ← hvalue]
    · exact unregisterProbe_outcome hsound hsmall
        (hnext hprobed fun heq => haddresses (congrArg FlowSlot.addresses heq))
  | erase s =>
    have hhere := (FlowTable.cells_eq_value_iff hsmall).mpr hpc
    refine ⟨.erase s _ hhere, .inr ⟨⟨s, hpc⟩, ?_⟩⟩
    rw [unregisterStep, FlowTable.cells_erase]
    exact hsound.erased hhere

end Steps

end SnowTG.Dispatch
