import SnowTG.Lib.System

/-!
# The flow table of the receive dispatcher

TCP connections are registered with the worker that owns them in an open-addressing
table of two words a slot.  Registering and unregistering run under the registry
lock; a lookup takes no lock.  Every load and every store is a step of its own, and
memory is sequentially consistent, so a run is an interleaving of the steps of one
writer and one reader.
-/

namespace SnowTG.Dispatch

open SnowTG.Lib

/-- `RX_DISPATCH_FLOW_TABLE_SIZE`. -/
def flowTableSize : Nat := 65536

/-- `RX_DISPATCH_TOMBSTONE`. -/
def tombstone : BitVec 64 := BitVec.allOnes 64

/-- The addresses and ports of a TCP connection. -/
structure FlowKey where
  remoteIp : BitVec 32
  localIp : BitVec 32
  remotePort : BitVec 16
  localPort : BitVec 16
  deriving DecidableEq, Repr

/-- `struct rx_dispatch_flow_slot`. -/
structure FlowSlot where
  addresses : BitVec 64 := 0
  portsProtocolOwner : BitVec 64 := 0
  deriving DecidableEq, Repr

/-- `rx_dispatch_mix64`. -/
def mix64 (value : BitVec 64) : BitVec 64 :=
  let value := value ^^^ (value >>> 30)
  let value := value * 0xbf58476d1ce4e5b9
  let value := value ^^^ (value >>> 27)
  let value := value * 0x94d049bb133111eb
  value ^^^ (value >>> 31)

/-- `rx_dispatch_flow_start`. -/
def flowStart (addresses portsProtocol : BitVec 64) : Nat :=
  (mix64 (addresses ^^^ portsProtocol)).toNat % flowTableSize

/-- `rx_dispatch_worker_index`. -/
def workerIndex (workers : List (BitVec 32)) (ownerLcore : BitVec 32) : Option Nat :=
  workers.findIdx? (· = ownerLcore)

/-- `IPPROTO_TCP`. -/
def ipprotoTcp : BitVec 8 := 6

namespace FlowKey

/-- `rx_dispatch_flow_addresses`. -/
def addresses (key : FlowKey) : BitVec 64 :=
  (key.remoteIp.setWidth 64 <<< 32) ||| key.localIp.setWidth 64

/-- `rx_dispatch_flow_identity` with `IPPROTO_TCP`. -/
def identity (key : FlowKey) : BitVec 64 :=
  (key.remotePort.setWidth 64 <<< 48) ||| (key.localPort.setWidth 64 <<< 32) |||
    (ipprotoTcp.setWidth 64 <<< 16)

/-- `rx_dispatch_flow_value` with `IPPROTO_TCP`. -/
def value (key : FlowKey) (ownerLcore : BitVec 32) : BitVec 64 :=
  key.identity ||| ownerLcore.setWidth 64

/-- The slot of a probe. -/
def slot (key : FlowKey) (probe : Nat) : Nat :=
  (flowStart key.addresses key.identity + probe) % flowTableSize

end FlowKey

/-- The part of an entry that is compared with an identity. -/
def identityBits (entry : BitVec 64) : BitVec 64 := entry &&& ~~~ 0xffff

/-- `g_flow_entries`. -/
abbrev FlowTable := Nat → FlowSlot

namespace FlowTable

/-- A store to the addresses of a slot. -/
def setAddresses (t : FlowTable) (slot : Nat) (addresses : BitVec 64) : FlowTable :=
  fun s => if s = slot then { t s with addresses := addresses } else t s

/-- A store to the second word of a slot. -/
def setValue (t : FlowTable) (slot : Nat) (value : BitVec 64) : FlowTable :=
  fun s => if s = slot then { t s with portsProtocolOwner := value } else t s

end FlowTable

/-- What a registration returns. -/
inductive RegisterResult where
  | ok
  | addrInUse
  | noSpace
  deriving DecidableEq, Repr

/-- Where `rx_dispatch_register_tcp_value` is: what its next load or store is for. -/
inductive RegisterPc where
  | probe (probe : Nat) (reuse : Option Nat)
  | compare (probe : Nat) (reuse : Option Nat) (entry : BitVec 64)
  | clear (slot : Nat)
  | address (slot : Nat)
  | publish (slot : Nat)
  deriving DecidableEq, Repr

/-- Where `rx_dispatch_unregister_tcp_connection` is. -/
inductive UnregisterPc where
  | probe (probe : Nat)
  | compare (probe : Nat)
  | erase (slot : Nat)
  deriving DecidableEq, Repr

/-- What a step of an operation leads to. -/
inductive Outcome (Pc Result : Type) where
  | goto (pc : Pc)
  | returned (result : Result)
  deriving DecidableEq, Repr

/-- After the last probe a tombstone seen on the way is taken, if there is one. -/
def registerProbe (probe : Nat) (reuse : Option Nat) : Outcome RegisterPc RegisterResult :=
  if probe < flowTableSize then .goto (.probe probe reuse)
  else
    match reuse with
    | some slot => .goto (.clear slot)
    | none => .returned .noSpace

/-- One load or store of `rx_dispatch_register_tcp_value`. -/
def registerStep (t : FlowTable) (key : FlowKey) (owner : BitVec 32) :
    RegisterPc → FlowTable × Outcome RegisterPc RegisterResult
  | .probe probe reuse =>
    let entry := (t (key.slot probe)).portsProtocolOwner
    if entry = tombstone then
      (t, registerProbe (probe + 1) (reuse <|> some (key.slot probe)))
    else if entry = 0 then (t, .goto (.clear (reuse.getD (key.slot probe))))
    else if identityBits entry = key.identity then (t, .goto (.compare probe reuse entry))
    else (t, registerProbe (probe + 1) reuse)
  | .compare probe reuse entry =>
    if (t (key.slot probe)).addresses = key.addresses then
      (t, .returned (if entry = key.value owner then .ok else .addrInUse))
    else (t, registerProbe (probe + 1) reuse)
  | .clear slot => (t.setValue slot 0, .goto (.address slot))
  | .address slot => (t.setAddresses slot key.addresses, .goto (.publish slot))
  | .publish slot => (t.setValue slot (key.value owner), .returned .ok)

def unregisterProbe (probe : Nat) : Outcome UnregisterPc Unit :=
  if probe < flowTableSize then .goto (.probe probe) else .returned ()

/-- One load or store of `rx_dispatch_unregister_tcp_connection`. -/
def unregisterStep (t : FlowTable) (key : FlowKey) (owner : BitVec 32) :
    UnregisterPc → FlowTable × Outcome UnregisterPc Unit
  | .probe probe =>
    let entry := (t (key.slot probe)).portsProtocolOwner
    if entry = 0 then (t, .returned ())
    else if entry = key.value owner then (t, .goto (.compare probe))
    else (t, unregisterProbe (probe + 1))
  | .compare probe =>
    if (t (key.slot probe)).addresses = key.addresses then
      (t, .goto (.erase (key.slot probe)))
    else (t, unregisterProbe (probe + 1))
  | .erase slot => (t.setValue slot tombstone, .returned ())

/-- Where `rx_dispatch_lookup_tcp_connection` is. -/
inductive LookupPc where
  | load (probe : Nat)
  | addresses (probe : Nat) (value : BitVec 64)
  | verify (probe : Nat) (value entryAddresses : BitVec 64)
  deriving DecidableEq, Repr

def lookupProbe (probe : Nat) : Outcome LookupPc (Option Nat) :=
  if probe < flowTableSize then .goto (.load probe) else .returned none

/-- One load of `rx_dispatch_lookup_tcp_connection`. -/
def lookupStep (workers : List (BitVec 32)) (t : FlowTable) (key : FlowKey) :
    LookupPc → Outcome LookupPc (Option Nat)
  | .load probe =>
    let value := (t (key.slot probe)).portsProtocolOwner
    if value = 0 then .returned none
    else if value = tombstone || identityBits value ≠ key.identity then lookupProbe (probe + 1)
    else .goto (.addresses probe value)
  | .addresses probe value => .goto (.verify probe value (t (key.slot probe)).addresses)
  | .verify probe value entryAddresses =>
    if value = (t (key.slot probe)).portsProtocolOwner && entryAddresses = key.addresses then
      .returned (workerIndex workers ((value.setWidth 16).setWidth 32))
    else lookupProbe (probe + 1)

/-- The holder of the registry lock. -/
inductive Writer where
  | idle
  | registering (key : FlowKey) (owner : BitVec 32) (pc : RegisterPc)
  | unregistering (key : FlowKey) (owner : BitVec 32) (pc : UnregisterPc)
  deriving DecidableEq, Repr

inductive Reader where
  | idle
  | looking (pc : LookupPc)
  | found (result : Option Nat)
  deriving DecidableEq, Repr

/-- The table with its writer and a reader that looks up one key.  `registered` is the owner the key
is registered with, by what the calls for it returned; `owner` is the one it had when the lookup
began, and `loads` counts the steps of the lookup. -/
structure Dispatcher where
  table : FlowTable
  writer : Writer := .idle
  reader : Reader := .idle
  registered : Option (BitVec 32) := none
  owner : BitVec 32 := 0
  loads : Nat := 0

/-- Calls, and steps of the calls that are running. -/
inductive DispatchEvent where
  | register (key : FlowKey) (owner : BitVec 32)
  | unregister (key : FlowKey) (owner : BitVec 32)
  | writer
  | lookup
  | reader
  deriving DecidableEq, Repr

/-- The argument checks of `rx_dispatch_register_tcp_connection`; a call that fails them returns
`-EINVAL`. -/
def registerValid (workers : List (BitVec 32)) (key : FlowKey) (owner : BitVec 32) : Bool :=
  key.remotePort ≠ 0 && key.localPort ≠ 0 && owner ≤ 0xffff && (workerIndex workers owner).isSome

namespace Dispatcher

variable (workers : List (BitVec 32)) (target : FlowKey)

def writerStep (st : Dispatcher) : Dispatcher :=
  match st.writer with
  | .idle => st
  | .registering key owner pc =>
    match registerStep st.table key owner pc with
    | (t, .goto pc) => { st with table := t, writer := .registering key owner pc }
    | (t, .returned result) =>
      { st with
        table := t
        writer := .idle
        registered := if key = target ∧ result = .ok then some owner else st.registered }
  | .unregistering key owner pc =>
    match unregisterStep st.table key owner pc with
    | (t, .goto pc) => { st with table := t, writer := .unregistering key owner pc }
    | (t, .returned _) =>
      { st with
        table := t
        writer := .idle
        registered :=
          if key = target ∧ st.registered = some owner then none else st.registered }

def readerStep (st : Dispatcher) : Dispatcher :=
  match st.reader with
  | .looking pc =>
    { st with
      loads := st.loads + 1
      reader :=
        match lookupStep workers st.table target pc with
        | .goto pc => .looking pc
        | .returned result => .found result }
  | _ => st

def step (st : Dispatcher) : DispatchEvent → Dispatcher
  | .register key owner =>
    if registerValid workers key owner then
      { st with writer := .registering key owner (.probe 0 none) }
    else st
  | .unregister key owner =>
    if owner ≤ 0xffff then { st with writer := .unregistering key owner (.probe 0) } else st
  | .writer => st.writerStep target
  | .lookup =>
    { st with reader := .looking (.load 0), owner := st.registered.getD 0, loads := 0 }
  | .reader => st.readerStep workers target

/-- The key of the running operation. -/
def writerKey (st : Dispatcher) : Option FlowKey :=
  match st.writer with
  | .idle => none
  | .registering key _ _ | .unregistering key _ _ => some key

def isLooking (st : Dispatcher) : Bool :=
  match st.reader with
  | .looking _ => true
  | _ => false

/-- The lock admits one writer.  The key that is looked up is registered, and no call for it runs
during the lookup. -/
def enabled (st : Dispatcher) : DispatchEvent → Prop
  | .register key _ | .unregister key _ => st.writer = .idle ∧ (st.isLooking → key ≠ target)
  | .writer => st.writer ≠ .idle
  | .lookup => st.isLooking = false ∧ st.registered.isSome ∧ st.writerKey ≠ some target
  | .reader => st.isLooking = true

end Dispatcher

/-- `rx_dispatch_configure_workers` accepts these workers. -/
def workersValid (workers : List (BitVec 32)) : Bool :=
  workers ≠ [] && workers.Nodup && workers.all (· ≤ 0xffff)

/-- Runs from the empty table that configuring the workers leaves. -/
def dispatchSystem (workers : List (BitVec 32)) (target : FlowKey) :
    System Dispatcher DispatchEvent where
  init st := workersValid workers ∧ st = { table := fun _ => {} }
  enabled := Dispatcher.enabled target
  step := Dispatcher.step workers target

end SnowTG.Dispatch
