import SnowTG.Dispatch.FlowEntries

/-!
# Calls on the flow table

When a call on the flow table runs alone, its loads and stores follow each other
without steps of another one between them.  Then the two words of a slot change
together, and the table is a probe table from addresses and ports to owners.
-/

namespace SnowTG.Dispatch

open SnowTG.Lib Function BitVec

/-- The steps of a call from where it is to its return; none if the steps run out. -/
def runCall {Pc Result : Type} (step : FlowTable → Pc → FlowTable × Outcome Pc Result) :
    Nat → FlowTable → Outcome Pc Result → Option (FlowTable × Result)
  | _, t, .returned result => some (t, result)
  | 0, _, .goto _ => none
  | steps + 1, t, .goto pc => runCall step steps (step t pc).1 (step t pc).2

namespace FlowTable

/-- `rx_dispatch_register_tcp_value`.  A probe takes two loads at most, and three stores follow. -/
def registerTcpValue (t : FlowTable) (key : FlowKey) (owner : BitVec 32) :
    Option (FlowTable × RegisterResult) :=
  runCall (registerStep · key owner) (2 * flowTableSize + 3) t (registerProbe 0 none)

/-- The loop of `rx_dispatch_unregister_tcp_connection`. -/
def unregisterTcp (t : FlowTable) (key : FlowKey) (owner : BitVec 32) : Option (FlowTable × Unit) :=
  runCall (unregisterStep · key owner) (2 * flowTableSize + 1) t (unregisterProbe 0)

/-- `rx_dispatch_lookup_tcp_connection`. -/
def lookupTcpConnection (workers : List (BitVec 32)) (t : FlowTable) (key : FlowKey) :
    Option (FlowTable × Option Nat) :=
  runCall (fun t pc => (t, lookupStep workers t key pc)) (3 * flowTableSize) t (lookupProbe 0)

variable {t : FlowTable} {key : FlowKey} {owner : BitVec 32} {slot : Nat} {steps probe left : Nat}

/-- The three stores of a registration. -/
theorem cells_publish (howner : owner ≤ 0xffff) :
    cells (((t.setValue slot 0).setAddresses slot key.addresses).setValue slot (key.value owner)) =
      update t.cells slot (.entry key.name (owner.setWidth 16)) := by
  rw [cells_fill (by simp) howner, cells_setAddresses (by simp), cells_clear, update_idem]

/-- What a registration of the probe table returns, as the dispatcher does. -/
def result : Registered → RegisterResult
  | .ok => .ok
  | .inUse => .addrInUse
  | .full => .noSpace

theorem runCall_clear (hsteps : 3 ≤ steps) :
    runCall (registerStep · key owner) steps t (.goto (.clear slot)) =
      some (((t.setValue slot 0).setAddresses slot key.addresses).setValue slot (key.value owner),
        .ok) := by
  obtain ⟨more, rfl⟩ : ∃ more, steps = more + 3 := ⟨steps - 3, by omega⟩
  simp only [runCall, registerStep]

theorem registerProbe_inside (h : probe < flowTableSize) (reuse : Option Nat) :
    registerProbe probe reuse = .goto (.probe probe reuse) := by
  rw [registerProbe.eq_def, if_pos h]

/-- The two loads of a probe compare the name of the entry. -/
theorem name_eq_iff {e : FlowSlot} : e.name = key.name ↔
    e.addresses = key.addresses ∧ identityBits e.portsProtocolOwner = key.identity :=
  Prod.mk_inj

/-- A registration that runs alone does to the probe table what it should. -/
theorem runCall_register (howner : owner ≤ 0xffff) {reuse : Option Nat}
    (hleft : probe + left = flowTableSize) (hsteps : 2 * left + 3 ≤ steps) :
    ∃ t', runCall (registerStep · key owner) steps t (registerProbe probe reuse) =
        some (t', result (ProbeTable.registerFrom flowTableSize flowHome t.cells key.name
          (owner.setWidth 16) left probe reuse).2) ∧
      t'.cells = (ProbeTable.registerFrom flowTableSize flowHome t.cells key.name
        (owner.setWidth 16) left probe reuse).1 := by
  induction left generalizing probe steps reuse with
  | zero =>
    have hend : ¬ probe < flowTableSize := by omega
    rw [registerProbe.eq_def, if_neg hend]
    cases reuse with
    | none =>
      refine ⟨t, ?_, rfl⟩
      rw [runCall]
      rfl
    | some first => exact ⟨_, runCall_clear (by omega), cells_publish howner⟩
  | succ left ih =>
    have hlt : probe < flowTableSize := by omega
    have hnext : probe + 1 + left = flowTableSize := by omega
    obtain ⟨more, rfl⟩ : ∃ more, steps = more + 2 := ⟨steps - 2, by omega⟩
    rw [registerProbe_inside hlt]
    simp only [runCall, registerStep, ProbeTable.registerFrom, probe_slot]
    generalize hslot : key.slot probe = slot
    by_cases htomb : (t slot).portsProtocolOwner = tombstone
    · rw [cells_eq_tomb.mpr htomb]
      simp only [if_pos htomb]
      exact ih hnext (by omega)
    by_cases hzero : (t slot).portsProtocolOwner = 0
    · rw [cells_eq_empty.mpr hzero]
      simp only [if_neg htomb, if_pos hzero]
      exact ⟨_, runCall_clear (by omega), cells_publish howner⟩
    rw [cells_eq_entry hzero htomb]
    simp only [if_neg htomb, if_neg hzero, name_eq_iff]
    by_cases hidentity : identityBits (t slot).portsProtocolOwner = key.identity
    · simp only [if_pos hidentity, runCall, registerStep, hslot]
      by_cases haddresses : (t slot).addresses = key.addresses
      · simp only [if_pos haddresses, if_pos (And.intro haddresses hidentity),
          key.eq_value_iff howner hidentity, runCall]
        refine ⟨t, ?_, rfl⟩
        split_ifs <;> rfl
      · simp only [haddresses, false_and, if_false]
        exact ih hnext (by omega)
    · simp only [hidentity, and_false, if_false]
      exact ih hnext (by omega)

/-- An unregistration that runs alone does to the probe table what it should. -/
theorem runCall_unregister (howner : owner ≤ 0xffff) (hleft : probe + left = flowTableSize)
    (hsteps : 2 * left + 1 ≤ steps) :
    ∃ t', runCall (unregisterStep · key owner) steps t (unregisterProbe probe) = some (t', ()) ∧
      t'.cells = ProbeTable.unregisterFrom flowTableSize flowHome t.cells key.name
        (owner.setWidth 16) left probe := by
  induction left generalizing probe steps with
  | zero =>
    have hend : ¬ probe < flowTableSize := by omega
    rw [unregisterProbe, if_neg hend]
    refine ⟨t, ?_, rfl⟩
    rw [runCall]
  | succ left ih =>
    have hlt : probe < flowTableSize := by omega
    have hnext : probe + 1 + left = flowTableSize := by omega
    obtain ⟨more, rfl⟩ : ∃ more, steps = more + 3 := ⟨steps - 3, by omega⟩
    rw [unregisterProbe, if_pos hlt]
    simp only [runCall, unregisterStep, ProbeTable.unregisterFrom, probe_slot]
    generalize hslot : key.slot probe = slot
    by_cases hzero : (t slot).portsProtocolOwner = 0
    · rw [cells_eq_empty.mpr hzero]
      simp only [if_pos hzero, runCall]
      exact ⟨t, rfl, rfl⟩
    by_cases htomb : (t slot).portsProtocolOwner = tombstone
    · have hother : (t slot).portsProtocolOwner ≠ key.value owner := by
        rw [htomb]
        exact (key.value_ne_tombstone howner).symm
      rw [cells_eq_tomb.mpr htomb]
      simp only [if_neg hzero, if_neg hother]
      exact ih hnext (by omega)
    rw [cells_eq_entry hzero htomb]
    simp only [if_neg hzero, name_eq_iff]
    by_cases hvalue : (t slot).portsProtocolOwner = key.value owner
    · have hidentity : identityBits (t slot).portsProtocolOwner = key.identity := by
        rw [hvalue, key.identityBits_value howner]
      have hheld := (key.eq_value_iff howner hidentity).mp hvalue
      simp only [if_pos hvalue, runCall, unregisterStep, hslot]
      by_cases haddresses : (t slot).addresses = key.addresses
      · simp only [if_pos haddresses, if_pos (And.intro (And.intro haddresses hidentity) hheld),
          runCall, unregisterStep]
        exact ⟨_, rfl, cells_erase⟩
      · simp only [haddresses, false_and, if_false]
        exact ih hnext (by omega)
    · have hother : ¬ (((t slot).addresses = key.addresses ∧
          identityBits (t slot).portsProtocolOwner = key.identity) ∧
          flowOwner (t slot).portsProtocolOwner = owner.setWidth 16) :=
        fun hname => hvalue ((key.eq_value_iff howner hname.1.2).mpr hname.2)
      simp only [if_neg hvalue, if_neg hother]
      exact ih hnext (by omega)

/-- A lookup that runs alone finds what the probe table holds. -/
theorem runCall_lookup (workers : List (BitVec 32)) (hleft : probe + left = flowTableSize)
    (hsteps : 3 * left ≤ steps) :
    runCall (fun t pc => (t, lookupStep workers t key pc)) steps t (lookupProbe probe) =
      some (t, (ProbeTable.lookupFrom flowTableSize flowHome t.cells key.name left probe).bind
        fun owner => workerIndex workers (owner.setWidth 32)) := by
  induction left generalizing probe steps with
  | zero =>
    have hend : ¬ probe < flowTableSize := by omega
    rw [lookupProbe, if_neg hend, runCall]
    rfl
  | succ left ih =>
    have hlt : probe < flowTableSize := by omega
    have hnext : probe + 1 + left = flowTableSize := by omega
    obtain ⟨more, rfl⟩ : ∃ more, steps = more + 3 := ⟨steps - 3, by omega⟩
    rw [lookupProbe, if_pos hlt]
    simp only [runCall, lookupStep, ProbeTable.lookupFrom, probe_slot]
    generalize hslot : key.slot probe = slot
    by_cases hzero : (t slot).portsProtocolOwner = 0
    · rw [cells_eq_empty.mpr hzero]
      simp only [if_pos hzero, runCall, Option.bind_none]
    by_cases htomb : (t slot).portsProtocolOwner = tombstone
    · rw [cells_eq_tomb.mpr htomb]
      simp only [htomb, decide_true, Bool.true_or, if_true]
      exact ih hnext (by omega)
    rw [cells_eq_entry hzero htomb]
    simp only [name_eq_iff]
    by_cases hidentity : identityBits (t slot).portsProtocolOwner = key.identity
    · simp only [if_neg hzero, htomb, hidentity, ne_eq, not_true_eq_false, decide_false,
        Bool.or_self, Bool.false_eq_true, if_false, runCall, hslot, decide_true,
        Bool.true_and, decide_eq_true_eq]
      by_cases haddresses : (t slot).addresses = key.addresses
      · simp only [haddresses, and_true, if_true, runCall, Option.bind_some, flowOwner]
      · simp only [haddresses, false_and, if_false]
        exact ih hnext (by omega)
    · simp only [if_neg hzero, hidentity, ne_eq, not_false_eq_true, decide_true, Bool.or_true,
        if_true, and_false, if_false]
      exact ih hnext (by omega)

/-- `rx_dispatch_register_tcp_value` returns, and is the registration of the probe table. -/
theorem registerTcpValue_cells (t : FlowTable) (key : FlowKey) (howner : owner ≤ 0xffff) :
    ∃ t', t.registerTcpValue key owner = some (t', result (ProbeTable.register flowTableSize flowHome
        t.cells key.name (owner.setWidth 16)).2) ∧
      t'.cells = (ProbeTable.register flowTableSize flowHome t.cells key.name
        (owner.setWidth 16)).1 :=
  runCall_register howner (zero_add _) le_rfl

/-- `rx_dispatch_unregister_tcp_connection` returns, and is the unregistration of the probe
table. -/
theorem unregisterTcp_cells (t : FlowTable) (key : FlowKey) (howner : owner ≤ 0xffff) :
    ∃ t', t.unregisterTcp key owner = some (t', ()) ∧
      t'.cells = ProbeTable.unregister flowTableSize flowHome t.cells key.name
        (owner.setWidth 16) :=
  runCall_unregister howner (zero_add _) le_rfl

/-- `rx_dispatch_lookup_tcp_connection` returns what the probe table holds. -/
theorem lookupTcpConnection_cells (workers : List (BitVec 32)) (t : FlowTable) (key : FlowKey) :
    t.lookupTcpConnection workers key =
      some (t, (ProbeTable.lookup flowTableSize flowHome t.cells key.name).bind
        fun owner => workerIndex workers (owner.setWidth 32)) :=
  runCall_lookup workers (zero_add _) le_rfl

end FlowTable

end SnowTG.Dispatch
