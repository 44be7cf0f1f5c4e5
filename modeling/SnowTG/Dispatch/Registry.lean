import SnowTG.Dispatch.Endpoints
import SnowTG.Dispatch.FlowCalls

/-!
# The dispatch tables as finite maps

Registrations, unregistrations and lookups of endpoints and TCP connections that
are executed one at a time, on the tables that configuring the workers leaves.
What is registered is kept beside the tables as two finite maps, by what the calls
return, and the tables hold exactly these maps.
-/

namespace SnowTG.Dispatch

open SnowTG.Lib Option

/-- The tables and workers of the dispatcher. -/
structure Registry where
  workers : List (BitVec 32)
  endpoints : EndpointTable
  flows : FlowTable

namespace Registry

/-- The argument checks of `rx_dispatch_register_endpoint`. -/
def endpointValid (workers : List (BitVec 32)) (key : EndpointKey) (owner : BitVec 32) : Bool :=
  (key.protocol = ipprotoTcp || key.protocol = ipprotoUdp) && key.localPort ≠ 0 &&
    owner ≤ 0xff && (workerIndex workers owner).isSome

/-- `rx_dispatch_configure_workers` with workers it accepts. -/
def configureWorkers (workers : List (BitVec 32)) : Registry where
  workers := workers
  endpoints := fun _ => 0
  flows := fun _ => {}

/-- `rx_dispatch_register_endpoint`. -/
def registerEndpoint (r : Registry) (key : EndpointKey) (owner : BitVec 32) :
    Registry × DispatchResult :=
  if r.workers = [] then (r, .ok)
  else if !endpointValid r.workers key owner then (r, .inval)
  else
    let (endpoints, result) := r.endpoints.registerValue (key.value owner) key.identity
      (endpointStart key.identity)
    ({ r with endpoints := endpoints }, result)

/-- `rx_dispatch_unregister_endpoint`. -/
def unregisterEndpoint (r : Registry) (key : EndpointKey) (owner : BitVec 32) : Registry :=
  if r.workers = [] || owner > 0xff then r
  else
    { r with
      endpoints := r.endpoints.unregisterValue (key.value owner) (endpointStart key.identity) }

/-- `rx_dispatch_lookup_endpoint`. -/
def lookupEndpoint (r : Registry) (key : EndpointKey) : Option Nat :=
  r.endpoints.lookupEndpoint r.workers key

/-- The two lookups of `rx_dispatch_classify` for the endpoint of a packet: its address, then
`INADDR_ANY`. -/
def classifyEndpoint (r : Registry) (key : EndpointKey) : Option Nat :=
  match r.lookupEndpoint key with
  | some worker => some worker
  | none => if key.localIp ≠ 0 then r.lookupEndpoint { key with localIp := 0 } else none

/-- `rx_dispatch_endpoint_is_registered`. -/
def endpointIsRegistered (r : Registry) (key : EndpointKey) : Bool :=
  if r.workers = [] then false
  else if (r.lookupEndpoint key).isSome then true
  else key.localIp ≠ 0 && (r.lookupEndpoint { key with localIp := 0 }).isSome

/-- `rx_dispatch_register_tcp_connection`; no result if it does not return. -/
def registerTcpConnection (r : Registry) (key : FlowKey) (owner : BitVec 32) :
    Registry × Option DispatchResult :=
  if r.workers = [] then (r, some .ok)
  else if !registerValid r.workers key owner then (r, some .inval)
  else
    match r.flows.registerTcpValue key owner with
    | none => (r, none)
    | some (flows, .ok) => ({ r with flows := flows }, some .ok)
    | some (flows, .addrInUse) => ({ r with flows := flows }, some .addrInUse)
    | some (flows, .noSpace) => ({ r with flows := flows }, some .noSpace)

/-- `rx_dispatch_unregister_tcp_connection`, with whether it returns. -/
def unregisterTcpConnection (r : Registry) (key : FlowKey) (owner : BitVec 32) :
    Registry × Option Unit :=
  if r.workers = [] || owner > 0xffff then (r, some ())
  else
    match r.flows.unregisterTcp key owner with
    | none => (r, none)
    | some (flows, _) => ({ r with flows := flows }, some ())

/-- `rx_dispatch_lookup_tcp_connection`; no result if it does not return. -/
def lookupTcpConnection (r : Registry) (key : FlowKey) : Option (Option Nat) :=
  (r.flows.lookupTcpConnection r.workers key).map Prod.snd

end Registry

/-- Which owner a key is registered with. -/
structure Registrations where
  endpoints : EndpointKey → Option (BitVec 32) := fun _ => none
  flows : FlowKey → Option (BitVec 32) := fun _ => none

inductive RegistryCall where
  | registerEndpoint (key : EndpointKey) (owner : BitVec 32)
  | unregisterEndpoint (key : EndpointKey) (owner : BitVec 32)
  | registerTcp (key : FlowKey) (owner : BitVec 32)
  | unregisterTcp (key : FlowKey) (owner : BitVec 32)
  deriving DecidableEq, Repr

/-- The dispatcher with the registrations that are live, by what the calls returned: a registration
that succeeds makes one, and unregistering a key with the owner it is registered with ends it. -/
structure DispatchRun where
  registry : Registry
  live : Registrations := {}

namespace DispatchRun

/-- The map after a registration has returned. -/
def registered {K : Type} [DecidableEq K] (map : K → Option (BitVec 32)) (key : K)
    (owner : BitVec 32) (result : DispatchResult) : K → Option (BitVec 32) :=
  if result = .ok then Function.update map key (some owner) else map

/-- The map after an unregistration. -/
def unregistered {K : Type} [DecidableEq K] (map : K → Option (BitVec 32)) (key : K)
    (owner : BitVec 32) : K → Option (BitVec 32) :=
  if map key = some owner then Function.update map key none else map

def step (d : DispatchRun) : RegistryCall → DispatchRun
  | .registerEndpoint key owner =>
    let (registry, result) := d.registry.registerEndpoint key owner
    ⟨registry, { d.live with endpoints := registered d.live.endpoints key owner result }⟩
  | .unregisterEndpoint key owner =>
    ⟨d.registry.unregisterEndpoint key owner,
      { d.live with endpoints := unregistered d.live.endpoints key owner }⟩
  | .registerTcp key owner =>
    let (registry, result) := d.registry.registerTcpConnection key owner
    ⟨registry, { d.live with
      flows := registered d.live.flows key owner (result.getD .again) }⟩
  | .unregisterTcp key owner =>
    ⟨(d.registry.unregisterTcpConnection key owner).1,
      { d.live with flows := unregistered d.live.flows key owner }⟩

end DispatchRun

/-- Calls one after the other; lookups change nothing. -/
def registrySystem (workers : List (BitVec 32)) : System DispatchRun RegistryCall where
  init d := workersValid workers ∧ d = { registry := .configureWorkers workers }
  enabled _ _ := True
  step := DispatchRun.step

/-- What a registration may answer, and what it does to the map. -/
def RegisterSpec {K : Type} [DecidableEq K] (map map' : K → Option (BitVec 32)) (key : K)
    (owner : BitVec 32) (answer : DispatchResult) (full : Prop) : Prop :=
  match map key with
  | some held => answer = (if held = owner then .ok else .addrInUse) ∧ map' = map
  | none => answer = .ok ∧ map' = Function.update map key (some owner) ∨
      answer = .noSpace ∧ map' = map ∧ full

/-- Every slot of the endpoint table has an entry. -/
def EndpointTable.Full (t : EndpointTable) : Prop :=
  ∀ slot < endpointTableSize, t slot ≠ 0 ∧ t slot ≠ tombstone

/-- Every slot of the flow table has an entry. -/
def FlowTable.Full (t : FlowTable) : Prop :=
  ∀ slot < flowTableSize, (t slot).portsProtocolOwner ≠ 0 ∧
    (t slot).portsProtocolOwner ≠ tombstone

/-! ## Maps and the tables that hold them -/

/-- A probe table that holds the map: what is found under the name of a key is its owner, in `w`
bits, and only valid registrations are live. -/
structure Held {K N : Type} [DecidableEq N] {w : Nat} (valid : K → BitVec 32 → Prop) (name : K → N)
    (size : Nat) (home : N → Nat) (t : ProbeTable N (BitVec w)) (map : K → Option (BitVec 32)) :
    Prop where
  sound : ProbeTable.Sound size home none t
  found : ∀ key, ProbeTable.lookup size home t (name key) = (map key).map (·.setWidth w)
  live : ∀ {key owner}, map key = some owner → valid key owner
  small : ∀ {key owner}, map key = some owner → owner.toNat < 2 ^ w

section Held

variable {K N : Type} [DecidableEq K] [DecidableEq N] {w : Nat} {valid : K → BitVec 32 → Prop}
  {name : K → N} {size : Nat} {home : N → Nat} {t : ProbeTable N (BitVec w)}
  {map map' : K → Option (BitVec 32)} {key : K} {owner : BitVec 32} {answer : DispatchResult}
  {full : Prop}

theorem RegisterSpec.mono {full' : Prop} (h : RegisterSpec map map' key owner answer full)
    (himp : full → full') : RegisterSpec map map' key owner answer full' := by
  rw [RegisterSpec] at h ⊢
  cases hheld : map key with
  | some held =>
    simp only [hheld] at h
    exact h
  | none =>
    simp only [hheld] at h
    exact h.imp_right fun hfull => ⟨hfull.1, hfull.2.1, himp hfull.2.2⟩

omit [DecidableEq K] in
theorem Held.empty (valid : K → BitVec 32 → Prop) (name : K → N) (size : Nat) (home : N → Nat)
    (ht : t = fun _ => .empty) : Held valid name size home t fun _ => none := by
  subst ht
  exact ⟨ProbeTable.sound_empty, fun key => ProbeTable.lookup_empty size home (name key), nofun,
    nofun⟩

omit [DecidableEq K] in
/-- An owner that is registered is told from others by its bits in the table. -/
theorem Held.owner_eq (h : Held valid name size home t map) (hsmall : owner.toNat < 2 ^ w)
    {held : BitVec 32} (hheld : map key = some held) :
    held.setWidth w = owner.setWidth w ↔ held = owner := by
  constructor
  · intro hsame
    rw [← setWidth_owner (h.small hheld), hsame, setWidth_owner hsmall]
  · rintro rfl
    rfl

omit [DecidableEq K] in
/-- A lookup in the table ends at the worker of the owner. -/
theorem Held.lookup (h : Held valid name size home t map) (workers : List (BitVec 32)) (key : K) :
    ((ProbeTable.lookup size home t (name key)).bind fun owner =>
      workerIndex workers (owner.setWidth 32)) = (map key).bind (workerIndex workers) := by
  rw [h.found]
  cases hlive : map key with
  | none => rfl
  | some owner => simp only [map_some, bind_some, setWidth_owner (h.small hlive)]

/-- The table after the map has changed at one key. -/
theorem Held.update (h : Held valid name size home t map) (hname : Function.Injective name)
    {t' : ProbeTable N (BitVec w)} {entry : Option (BitVec 32)}
    (hsound : ProbeTable.Sound size home none t')
    (hlookup : ProbeTable.lookup size home t' =
      Function.update (ProbeTable.lookup size home t) (name key) (entry.map (·.setWidth w)))
    (hentry : ∀ owner, entry = some owner → valid key owner ∧ owner.toNat < 2 ^ w) :
    Held valid name size home t' (Function.update map key entry) := by
  have hlive : ∀ {key' owner'}, Function.update map key entry key' = some owner' →
      valid key' owner' ∧ owner'.toNat < 2 ^ w := by
    intro key' owner' hlive
    by_cases hkey : key' = key
    · rw [hkey, Function.update_self] at hlive
      rw [hkey]
      exact hentry owner' hlive
    · rw [Function.update_of_ne hkey] at hlive
      exact ⟨h.live hlive, h.small hlive⟩
  refine ⟨hsound, fun other => ?_, fun h => (hlive h).1, fun h => (hlive h).2⟩
  rw [hlookup]
  by_cases hkey : other = key
  · rw [hkey, Function.update_self, Function.update_self]
  · rw [Function.update_of_ne hkey, Function.update_of_ne fun heq => hkey (hname heq)]
    exact h.found other

theorem Held.unregister (h : Held valid name size home t map) (hname : Function.Injective name)
    (key : K) (hsmall : owner.toNat < 2 ^ w) :
    Held valid name size home (ProbeTable.unregister size home t (name key) (owner.setWidth w))
      (DispatchRun.unregistered map key owner) := by
  obtain ⟨hsound, hlookup⟩ := h.sound.unregister_spec (name key) (owner.setWidth w)
  have hiff : ProbeTable.lookup size home t (name key) = some (owner.setWidth w) ↔
      map key = some owner := by
    rw [h.found, map_eq_some_iff]
    constructor
    · rintro ⟨held, hheld, heq⟩
      rw [hheld, (h.owner_eq hsmall hheld).mp heq]
    · intro howner
      exact ⟨owner, howner, rfl⟩
  rw [DispatchRun.unregistered]
  by_cases howner : map key = some owner
  · rw [if_pos (hiff.mpr howner)] at hlookup
    rw [if_pos howner]
    exact h.update hname hsound hlookup nofun
  · rw [if_neg fun heq => howner (hiff.mp heq)] at hlookup
    rw [if_neg howner]
    exact { h with sound := hsound, found := hlookup ▸ h.found }

/-- The table answers for the map, and then holds the map that results. -/
theorem Held.register (h : Held valid name size home t map) (hname : Function.Injective name)
    (hvalid : valid key owner) (hsmall : owner.toNat < 2 ^ w) :
    let done := ProbeTable.register size home t (name key) (owner.setWidth w)
    let map' := DispatchRun.registered map key owner (EndpointTable.result done.2)
    RegisterSpec map map' key owner (EndpointTable.result done.2)
        (∀ s < size, ¬ ProbeTable.Vacant t s) ∧
      Held valid name size home done.1 map' := by
  have hfound := h.found key
  cases hheld : map key with
  | some held =>
    rw [hheld, map_some] at hfound
    simp only [h.sound.register_present hfound, h.owner_eq hsmall hheld, RegisterSpec, hheld]
    by_cases heq : held = owner
    · have hmap : DispatchRun.registered map key owner .ok = map := by
        rw [DispatchRun.registered, if_pos rfl, ← heq, ← hheld, Function.update_eq_self]
      rw [if_pos heq, if_pos heq]
      exact ⟨⟨rfl, hmap⟩, hmap.symm ▸ h⟩
    · rw [if_neg heq, if_neg heq]
      exact ⟨⟨rfl, rfl⟩, h⟩
  | none =>
    rw [hheld, map_none] at hfound
    rcases h.sound.register_absent hfound (owner.setWidth w) with
      ⟨hfull, hentries⟩ | ⟨t', hadded, hsound, hlookup⟩
    · simp only [hfull, RegisterSpec, hheld]
      exact ⟨.inr ⟨rfl, rfl, hentries⟩, h⟩
    · simp only [hadded, RegisterSpec, hheld]
      refine ⟨.inl ⟨rfl, rfl⟩, h.update hname hsound hlookup fun owner' howner => ?_⟩
      obtain rfl := Option.some.inj howner
      exact ⟨hvalid, hsmall⟩

end Held

/-- The endpoint table holds the map. -/
abbrev EndpointTable.Held (workers : List (BitVec 32)) (t : EndpointTable) :
    (EndpointKey → Option (BitVec 32)) → Prop :=
  Dispatch.Held (fun key owner => Registry.endpointValid workers key owner) EndpointKey.identity
    endpointTableSize endpointStart t.cells

/-- The flow table holds the map. -/
abbrev FlowTable.Held (workers : List (BitVec 32)) (t : FlowTable) :
    (FlowKey → Option (BitVec 32)) → Prop :=
  Dispatch.Held (fun key owner => registerValid workers key owner) FlowKey.name flowTableSize
    flowHome t.cells

/-- The tables hold the maps of the live registrations. -/
structure DispatchRun.Inv (workers : List (BitVec 32)) (d : DispatchRun) : Prop where
  same : d.registry.workers = workers
  configured : workers ≠ []
  endpoints : d.registry.endpoints.Held workers d.live.endpoints
  flows : d.registry.flows.Held workers d.live.flows

namespace DispatchRun

variable {workers : List (BitVec 32)} {d : DispatchRun} {r : Registry}

theorem inv_init (h : (registrySystem workers).init d) : d.Inv workers := by
  obtain ⟨hvalid, rfl⟩ := h
  refine ⟨rfl, ?_, .empty _ _ _ _ ?_, .empty _ _ _ _ ?_⟩
  · rintro rfl
    exact absurd hvalid (by decide)
  · ext1 slot
    exact EndpointTable.cells_eq_empty.mpr rfl
  · ext1 slot
    exact FlowTable.cells_eq_empty.mpr rfl

/-- What is live after an unregistration was live before. -/
theorem unregistered_live {K : Type} [DecidableEq K] {map : K → Option (BitVec 32)} {key key' : K}
    {owner owner' : BitVec 32} (h : unregistered map key owner key' = some owner') :
    map key' = some owner' := by
  rw [unregistered] at h
  split_ifs at h
  · by_cases hkey : key' = key
    · rw [hkey, Function.update_self] at h
      simp at h
    · rwa [Function.update_of_ne hkey] at h
  · exact h

/-! ## Calls for endpoints -/

section Endpoints

variable {key : EndpointKey} {owner : BitVec 32}

theorem endpointValid_iff : Registry.endpointValid workers key owner ↔
    (key.protocol = ipprotoTcp ∨ key.protocol = ipprotoUdp) ∧ key.localPort ≠ 0 ∧ owner ≤ 0xff ∧
      (workerIndex workers owner).isSome := by
  simp only [Registry.endpointValid, Bool.and_eq_true, Bool.or_eq_true, decide_eq_true_eq, ne_eq,
    decide_not, Bool.not_eq_true', decide_eq_false_iff_not, and_assoc]

theorem word_of_valid (h : Registry.endpointValid workers key owner) :
    EndpointWord (key.value owner) key.identity (owner.setWidth 8) := by
  obtain ⟨hprotocol, -, howner, -⟩ := endpointValid_iff.mp h
  have hlive : key.value owner ≠ 0 ∧ key.value owner ≠ tombstone := by
    apply key.value_live howner
    · rcases hprotocol with heq | heq <;> rw [heq] <;> decide
    · rcases hprotocol with heq | heq <;> rw [heq] <;> decide
  exact key.word howner hlive.1 hlive.2

theorem full_of_cells {t : EndpointTable}
    (h : ∀ slot < endpointTableSize, ¬ ProbeTable.Vacant t.cells slot) : t.Full := by
  intro slot hslot
  constructor
  · intro hzero
    exact h slot hslot (.inl (EndpointTable.cells_eq_empty.mpr hzero))
  · intro htomb
    exact h slot hslot (.inr (EndpointTable.cells_eq_tomb.mpr htomb))

theorem Inv.workers_ne (h : d.Inv workers) : d.registry.workers ≠ [] :=
  h.same ▸ h.configured

theorem Inv.registerEndpoint_invalid (h : d.Inv workers)
    (hvalid : ¬Registry.endpointValid workers key owner) :
    d.registry.registerEndpoint key owner = (d.registry, .inval) := by
  rw [Registry.registerEndpoint, if_neg h.workers_ne, h.same, if_pos (by simpa using hvalid)]

/-- A registration with valid arguments answers for the map, and leaves a table for the map that
results. -/
theorem Inv.registerEndpoint (h : d.Inv workers)
    (hvalid : Registry.endpointValid workers key owner) :
    ∃ endpoints answer,
      d.registry.registerEndpoint key owner = ({ d.registry with endpoints := endpoints }, answer) ∧
      RegisterSpec d.live.endpoints (registered d.live.endpoints key owner answer) key owner answer
        d.registry.endpoints.Full ∧
      endpoints.Held workers (registered d.live.endpoints key owner answer) := by
  obtain ⟨-, -, howner, -⟩ := endpointValid_iff.mp hvalid
  obtain ⟨hcells, hanswer⟩ :=
    EndpointTable.registerValue_cells (t := d.registry.endpoints) (word_of_valid hvalid)
  obtain ⟨hspec, hheld⟩ := h.endpoints.register (fun _ _ => EndpointKey.identity_inj) hvalid
    (Nat.lt_succ_of_le howner)
  rw [← hanswer] at hspec hheld
  rw [← hcells] at hheld
  refine ⟨_, _, ?_, hspec.mono full_of_cells, hheld⟩
  have hchecked : Registry.endpointValid d.registry.workers key owner := h.same ▸ hvalid
  rw [Registry.registerEndpoint, if_neg h.workers_ne, hchecked]
  rfl

theorem Inv.registerEndpoint_step (h : d.Inv workers) :
    (d.step (.registerEndpoint key owner)).Inv workers := by
  by_cases hvalid : Registry.endpointValid workers key owner
  · obtain ⟨endpoints, answer, heq, -, hheld⟩ := h.registerEndpoint hvalid
    simp only [step, heq]
    exact { h with endpoints := hheld }
  · simp only [step, h.registerEndpoint_invalid hvalid, registered]
    exact h

theorem Inv.unregisterEndpoint_step (h : d.Inv workers) :
    (d.step (.unregisterEndpoint key owner)).Inv workers := by
  -- a key that is not registered with this owner keeps its registration
  have hnot : ¬ Registry.endpointValid workers key owner →
      unregistered d.live.endpoints key owner = d.live.endpoints := by
    intro hinvalid
    exact if_neg fun hlive => hinvalid (h.endpoints.live hlive)
  by_cases hlarge : owner > 0xff
  · have hsame : d.registry.unregisterEndpoint key owner = d.registry := by
      rw [Registry.unregisterEndpoint, decide_eq_true hlarge, Bool.or_true, if_pos rfl]
    have hmap := hnot fun hok => absurd (endpointValid_iff.mp hok).2.2.1 (by
      simpa [BitVec.not_le] using hlarge)
    simp only [step, hsame, hmap]
    exact h
  have howner : owner ≤ 0xff := BitVec.not_lt.mp hlarge
  have heq : d.registry.unregisterEndpoint key owner =
      { d.registry with
        endpoints := d.registry.endpoints.unregisterValue (key.value owner)
          (endpointStart key.identity) } := by
    rw [Registry.unregisterEndpoint, decide_eq_false hlarge, decide_eq_false h.workers_ne]
    rfl
  by_cases hdead : key.value owner = 0 ∨ key.value owner = tombstone
  · have hsame : d.registry.endpoints.unregisterValue (key.value owner)
        (endpointStart key.identity) = d.registry.endpoints :=
      EndpointTable.unregisterValueFrom_dead hdead _
    have hmap := hnot fun hok => hdead.elim (word_of_valid hok).nonzero (word_of_valid hok).live
    simp only [step, heq, hsame, hmap]
    exact h
  · rw [not_or] at hdead
    have hcells := EndpointTable.unregisterValue_cells (t := d.registry.endpoints)
      (key.word howner hdead.1 hdead.2)
    have hheld := h.endpoints.unregister (fun _ _ => EndpointKey.identity_inj) key
      (Nat.lt_succ_of_le howner)
    rw [← hcells] at hheld
    simp only [step, heq]
    exact { h with endpoints := hheld }

/-- `rx_dispatch_lookup_endpoint` finds the worker of a live registration, and nothing else. -/
theorem Inv.lookupEndpoint (h : d.Inv workers) (key : EndpointKey) :
    d.registry.lookupEndpoint key = (d.live.endpoints key).bind (workerIndex workers) := by
  rw [Registry.lookupEndpoint, EndpointTable.lookupEndpoint_cells, h.same]
  exact h.endpoints.lookup workers key

end Endpoints

/-! ## Calls for connections -/

section Flows

variable {key : FlowKey} {owner : BitVec 32} {flows : FlowTable}

theorem registerValid_iff : registerValid workers key owner ↔
    key.remotePort ≠ 0 ∧ key.localPort ≠ 0 ∧ owner ≤ 0xffff ∧
      (workerIndex workers owner).isSome := by
  simp only [registerValid, Bool.and_eq_true, decide_eq_true_eq, ne_eq, decide_not,
    Bool.not_eq_true', decide_eq_false_iff_not, and_assoc]

theorem flows_full_of_cells {t : FlowTable}
    (h : ∀ slot < flowTableSize, ¬ ProbeTable.Vacant t.cells slot) : t.Full := by
  intro slot hslot
  constructor
  · intro hzero
    exact h slot hslot (.inl (FlowTable.cells_eq_empty.mpr hzero))
  · intro htomb
    exact h slot hslot (.inr (FlowTable.cells_eq_tomb.mpr htomb))

theorem Inv.registerTcp_invalid (h : d.Inv workers) (hvalid : ¬registerValid workers key owner) :
    d.registry.registerTcpConnection key owner = (d.registry, some .inval) := by
  rw [Registry.registerTcpConnection, if_neg h.workers_ne, h.same, if_pos (by simpa using hvalid)]

/-- A registration with valid arguments answers for the map, and leaves a table for the map that
results. -/
theorem Inv.registerTcp (h : d.Inv workers) (hvalid : registerValid workers key owner) :
    ∃ flows answer,
      d.registry.registerTcpConnection key owner =
        ({ d.registry with flows := flows }, some answer) ∧
      RegisterSpec d.live.flows (registered d.live.flows key owner answer) key owner answer
        d.registry.flows.Full ∧
      flows.Held workers (registered d.live.flows key owner answer) := by
  obtain ⟨-, -, howner, -⟩ := registerValid_iff.mp hvalid
  obtain ⟨flows, hreturned, hcells⟩ :=
    FlowTable.registerTcpValue_cells d.registry.flows key howner
  obtain ⟨hspec, hheld⟩ := h.flows.register (fun _ _ => FlowKey.name_inj) hvalid
    (Nat.lt_succ_of_le howner)
  rw [← hcells] at hheld
  refine ⟨flows, _, ?_, hspec.mono flows_full_of_cells, hheld⟩
  have hchecked : registerValid d.registry.workers key owner := h.same ▸ hvalid
  rw [Registry.registerTcpConnection, if_neg h.workers_ne, hchecked, hreturned]
  cases (ProbeTable.register flowTableSize flowHome d.registry.flows.cells key.name
    (owner.setWidth 16)).2 <;> rfl

theorem Inv.registerTcp_step (h : d.Inv workers) :
    (d.step (.registerTcp key owner)).Inv workers := by
  by_cases hvalid : registerValid workers key owner
  · obtain ⟨flows, answer, heq, -, hheld⟩ := h.registerTcp hvalid
    simp only [step, heq, getD_some]
    exact { h with flows := hheld }
  · simp only [step, h.registerTcp_invalid hvalid, registered]
    exact h

theorem Inv.unregisterTcp_step (h : d.Inv workers) :
    (d.step (.unregisterTcp key owner)).Inv workers := by
  by_cases hlarge : owner > 0xffff
  · have hsame : d.registry.unregisterTcpConnection key owner = (d.registry, some ()) := by
      rw [Registry.unregisterTcpConnection, decide_eq_true hlarge, Bool.or_true, if_pos rfl]
    have hmap : unregistered d.live.flows key owner = d.live.flows := by
      apply if_neg
      intro hlive
      exact absurd (registerValid_iff.mp (h.flows.live hlive)).2.2.1 (by
        simpa [BitVec.not_le] using hlarge)
    simp only [step, hsame, hmap]
    exact h
  · have howner : owner ≤ 0xffff := BitVec.not_lt.mp hlarge
    obtain ⟨flows, hreturned, hcells⟩ :=
      FlowTable.unregisterTcp_cells d.registry.flows key howner
    have hheld := h.flows.unregister (fun _ _ => FlowKey.name_inj) key (Nat.lt_succ_of_le howner)
    rw [← hcells] at hheld
    have heq : d.registry.unregisterTcpConnection key owner =
        ({ d.registry with flows := flows }, some ()) := by
      rw [Registry.unregisterTcpConnection, decide_eq_false hlarge, decide_eq_false h.workers_ne,
        hreturned]
      rfl
    simp only [step, heq]
    exact { h with flows := hheld }

/-- `rx_dispatch_lookup_tcp_connection` returns the worker of a live registration, and nothing
else. -/
theorem Inv.lookupTcp (h : d.Inv workers) (key : FlowKey) :
    d.registry.lookupTcpConnection key =
      some ((d.live.flows key).bind (workerIndex workers)) := by
  rw [Registry.lookupTcpConnection, FlowTable.lookupTcpConnection_cells, h.same, map_some]
  exact congrArg some (h.flows.lookup workers key)

end Flows

/-- Every call keeps the tables those of the maps. -/
theorem Inv.step (h : d.Inv workers) (call : RegistryCall) : (d.step call).Inv workers := by
  cases call with
  | registerEndpoint key owner => exact h.registerEndpoint_step
  | unregisterEndpoint key owner => exact h.unregisterEndpoint_step
  | registerTcp key owner => exact h.registerTcp_step
  | unregisterTcp key owner => exact h.unregisterTcp_step

theorem reach_inv {ok : DispatchRun → RegistryCall → Prop}
    (h : (registrySystem workers).Reach ok d) : d.Inv workers := by
  apply h.invariant
  · intro d hinit
    exact inv_init hinit
  · intro d call hd _ _
    exact hd.step call

/-- The owner of the endpoint of a packet: that of its address, else that of `INADDR_ANY`. -/
def endpointOrAny (live : Registrations) (key : EndpointKey) : Option (BitVec 32) :=
  (live.endpoints key).or
    (if key.localIp ≠ 0 then live.endpoints { key with localIp := 0 } else none)

theorem Inv.workerIndex_isSome (h : d.Inv workers) {key : EndpointKey}
    (hlive : d.live.endpoints key = some owner) : (workerIndex workers owner).isSome :=
  (endpointValid_iff.mp (h.endpoints.live hlive)).2.2.2

/-- A lookup finds the worker that the map names. -/
theorem Inv.classifyEndpoint (h : d.Inv workers) (key : EndpointKey) :
    d.registry.classifyEndpoint key = (endpointOrAny d.live key).bind (workerIndex workers) := by
  rw [Registry.classifyEndpoint, h.lookupEndpoint, h.lookupEndpoint, endpointOrAny]
  cases hlive : d.live.endpoints key with
  | some owner =>
    obtain ⟨worker, hworker⟩ := isSome_iff_exists.mp (h.workerIndex_isSome hlive)
    simp [hworker]
  | none =>
    by_cases hany : key.localIp = 0#32
    · simp [hany]
    · simp [hany]

theorem Inv.endpointIsRegistered (h : d.Inv workers) (key : EndpointKey) :
    d.registry.endpointIsRegistered key = (endpointOrAny d.live key).isSome := by
  have hbind : ∀ key, ((d.live.endpoints key).bind (workerIndex workers)).isSome =
      (d.live.endpoints key).isSome := by
    intro key
    cases hlive : d.live.endpoints key with
    | none => rfl
    | some owner => exact h.workerIndex_isSome hlive
  rw [Registry.endpointIsRegistered, if_neg h.workers_ne, h.lookupEndpoint, h.lookupEndpoint, hbind,
    hbind, endpointOrAny]
  cases d.live.endpoints key with
  | some owner => rfl
  | none =>
    by_cases hany : key.localIp = 0#32
    · simp [hany]
    · simp [hany]

end DispatchRun

/-- Over every sequence of calls executed one at a time the tables are the maps of live
registrations: a lookup finds the worker of the live registration of its key, for endpoints of the
address or else of `INADDR_ANY`; a registration answers for the map, and says that there is no space
only when every slot has an entry. -/
theorem dispatch_tables_refine_maps {workers : List (BitVec 32)} {d : DispatchRun}
    (h : (registrySystem workers).Reach (fun _ _ => True) d) :
    ((∀ key, d.registry.lookupEndpoint key =
        (d.live.endpoints key).bind (workerIndex workers)) ∧
      (∀ key, d.registry.classifyEndpoint key =
        (DispatchRun.endpointOrAny d.live key).bind (workerIndex workers)) ∧
      (∀ key, d.registry.endpointIsRegistered key =
        (DispatchRun.endpointOrAny d.live key).isSome) ∧
      (∀ key, d.registry.lookupTcpConnection key =
        some ((d.live.flows key).bind (workerIndex workers)))) ∧
    ((∀ key owner, d.live.endpoints key = some owner → (workerIndex workers owner).isSome) ∧
      (∀ key owner, d.live.flows key = some owner → (workerIndex workers owner).isSome)) ∧
    (∀ key owner, Registry.endpointValid workers key owner →
      RegisterSpec d.live.endpoints (d.step (.registerEndpoint key owner)).live.endpoints key
        owner (d.registry.registerEndpoint key owner).2 d.registry.endpoints.Full) ∧
    (∀ key owner, registerValid workers key owner →
      ∃ answer, (d.registry.registerTcpConnection key owner).2 = some answer ∧
        RegisterSpec d.live.flows (d.step (.registerTcp key owner)).live.flows key owner answer
          d.registry.flows.Full) := by
  have hinv := DispatchRun.reach_inv h
  refine ⟨⟨hinv.lookupEndpoint, hinv.classifyEndpoint, hinv.endpointIsRegistered,
    hinv.lookupTcp⟩, ⟨?_, ?_⟩, ?_, ?_⟩
  · intro key owner hlive
    exact hinv.workerIndex_isSome hlive
  · intro key owner hlive
    exact (DispatchRun.registerValid_iff.mp (hinv.flows.live hlive)).2.2.2
  · intro key owner hvalid
    obtain ⟨endpoints, answer, heq, hspec, -⟩ := hinv.registerEndpoint hvalid
    simp only [DispatchRun.step, heq]
    exact hspec
  · intro key owner hvalid
    obtain ⟨flows, answer, heq, hspec, -⟩ := hinv.registerTcp hvalid
    refine ⟨answer, by rw [heq], ?_⟩
    simp only [DispatchRun.step, heq, getD_some]
    exact hspec

/-- Two listeners whose probes begin at the same slot: the one in it is taken out, and the other is
found behind the tombstone. -/
theorem dispatch_tables_refine_maps_behind_tombstone :
    let d := (registrySystem [3, 4]).run { registry := .configureWorkers [3, 4] }
      [.registerEndpoint ⟨6, 0, 80⟩ 3, .registerEndpoint ⟨6, 0, 8334⟩ 4,
        .unregisterEndpoint ⟨6, 0, 80⟩ 3]
    d.registry.endpoints (endpointStart (EndpointKey.identity ⟨6, 0, 8334⟩)) = tombstone ∧
      d.live.endpoints ⟨6, 0, 80⟩ = none ∧ d.registry.classifyEndpoint ⟨6, 1, 8334⟩ = some 1 ∧
      d.registry.classifyEndpoint ⟨6, 1, 8334⟩ =
        (DispatchRun.endpointOrAny d.live ⟨6, 1, 8334⟩).bind (workerIndex [3, 4]) := by
  refine ⟨by decide +kernel, by decide +kernel, by decide +kernel, ?_⟩
  have hstart : (registrySystem [3, 4]).Reach (fun _ _ => True)
      { registry := .configureWorkers [3, 4] } := .init ⟨by decide, rfl⟩
  exact (dispatch_tables_refine_maps (hstart.run (by simp [System.Admissible, registrySystem]))).1.2.1
    ⟨6, 1, 8334⟩

end SnowTG.Dispatch
