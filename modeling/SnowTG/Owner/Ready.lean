import SnowTG.Lib.System

/-!
# Readiness notifications of an owner

An owner keeps its sockets in a slot table and tells the application which of
them became ready.  Readiness bits are collected in the socket, and at most one
event for it is queued.  When no event can be queued, the owner remembers that
it has to look through all slots.  A burst hands out what is queued and, if
need be, what a scan finds.
-/

namespace SnowTG.Owner

open SnowTG.Lib

/-- `struct nsock_handle`. -/
structure Handle where
  id : Nat
  generation : BitVec 32
  ownerLcore : Nat
  protocol : BitVec 8
  deriving DecidableEq, Repr

/-- The fields of `struct nsock` that the readiness path works on. -/
structure Nsock where
  id : Nat
  generation : BitVec 32
  ownerLcore : Nat
  protocol : BitVec 8
  readyMask : BitVec 32 := 0
  readyQueued : Bool := false
  deriving DecidableEq, Repr

/-- `struct owner_io_event`. -/
structure IoEvent where
  handle : Handle
  events : BitVec 32
  deriving DecidableEq, Repr

/-- The fields of `struct socket_owner` that the slot table and the readiness path work on.  The
head of `freeIds` is the top of the stack. -/
structure SocketOwner where
  lcoreId : Nat
  slots : List (Option Nsock)
  generations : List (BitVec 32)
  freeIds : List Nat
  readyRing : List Handle := []
  readyOverflow : Bool := false
  readyScan : Nat := 0
  deriving DecidableEq, Repr

/-- `socket_owner_handle`. -/
def socketOwnerHandle (sk : Nsock) : Handle := ⟨sk.id, sk.generation, sk.ownerLcore, sk.protocol⟩

namespace SocketOwner

def slotCapacity (o : SocketOwner) : Nat := o.slots.length

/-- The socket in a slot. -/
def at? (o : SocketOwner) (id : Nat) : Option Nsock := (o.slots[id]?).join

/-- The socket in a slot has changed. -/
def update (o : SocketOwner) (id : Nat) (sk : Nsock) : SocketOwner :=
  { o with slots := o.slots.set id (some sk) }

/-- `socket_owner_init_with_capacity`. -/
def init (lcoreId capacity : Nat) : SocketOwner where
  lcoreId := lcoreId
  slots := List.replicate capacity none
  generations := List.replicate capacity 0
  freeIds := List.range capacity

/-- `owner_lookup`. -/
def lookup (o : SocketOwner) (handle : Handle) : Option Nsock :=
  if handle.id ≥ o.slotCapacity || handle.ownerLcore ≠ o.lcoreId then none
  else
    match o.at? handle.id with
    | none => none
    | some sk =>
      if sk.generation ≠ handle.generation || sk.protocol ≠ handle.protocol then none
      else some sk

/-- `socket_owner_adopt` of a newly allocated socket. -/
def adopt (o : SocketOwner) (protocol : BitVec 8) : SocketOwner :=
  match o.freeIds with
  | [] => o
  | id :: rest =>
    let stored := o.generations.getD id 0
    let generation := if stored = 0 then 1 else stored
    { o with
      freeIds := rest
      generations := o.generations.set id generation
      slots := o.slots.set id (some
        { id := id, generation := generation, ownerLcore := o.lcoreId, protocol := protocol }) }

/-- `socket_owner_retire` of the socket in a slot. -/
def retire (o : SocketOwner) (id : Nat) : SocketOwner :=
  match o.at? id with
  | none => o
  | some _ =>
    let next := o.generations.getD id 0 + 1
    { o with
      slots := o.slots.set id none
      generations := o.generations.set id (if next = 0 then 1 else next)
      freeIds := if o.freeIds.length < o.slotCapacity then id :: o.freeIds else o.freeIds }

/-- `socket_owner_ready_post` for the socket in a slot.  `poolOk` and `ringOk` say whether an event
object and a place in the ring are to be had. -/
def readyPost (o : SocketOwner) (id : Nat) (events : BitVec 32) (poolOk ringOk : Bool) :
    SocketOwner :=
  match o.at? id with
  | none => o
  | some sk =>
    if events = 0 then o
    else
      let marked := { sk with readyMask := sk.readyMask ||| events }
      if sk.readyQueued then o.update id marked
      else if !poolOk || !ringOk then { o.update id marked with readyOverflow := true }
      else
        { o.update id { marked with readyQueued := true } with
          readyRing := o.readyRing ++ [socketOwnerHandle sk] }

/-- First loop of `socket_owner_ready_burst`, over the ring, while there is room for events. -/
def burstRing (o : SocketOwner) : List Handle → Nat → List IoEvent → SocketOwner × List IoEvent
  | [], _, out => ({ o with readyRing := [] }, out)
  | handle :: rest, 0, out => ({ o with readyRing := handle :: rest }, out)
  | handle :: rest, room + 1, out =>
    match o.lookup handle with
    | none => burstRing o rest (room + 1) out
    | some sk =>
      let taken := o.update handle.id { sk with readyMask := 0, readyQueued := false }
      if sk.readyMask = 0 then burstRing taken rest (room + 1) out
      else burstRing taken rest room (out ++ [⟨handle, sk.readyMask⟩])

/-- The scan goes on to the next slot. -/
def scanNext (o : SocketOwner) : SocketOwner :=
  { o with readyScan := (o.readyScan + 1) % o.slotCapacity }

/-- Second loop of `socket_owner_ready_burst`, over the slots from `ready_scan` on; the first
argument counts the slots not scanned yet. -/
def burstScan : Nat → SocketOwner → Nat → List IoEvent → SocketOwner × List IoEvent
  | 0, o, _, out => ({ o with readyOverflow := false }, out)
  | _ + 1, o, 0, out => (o, out)
  | left + 1, o, room + 1, out =>
    match o.at? o.readyScan with
    | none => burstScan left o.scanNext (room + 1) out
    | some sk =>
      if sk.readyMask ≠ 0 && !sk.readyQueued then
        burstScan left (o.scanNext.update o.readyScan { sk with readyMask := 0 }) room
          (out ++ [⟨socketOwnerHandle sk, sk.readyMask⟩])
      else burstScan left o.scanNext (room + 1) out

/-- `socket_owner_ready_burst`. -/
def readyBurst (o : SocketOwner) (maxEvents : Nat) : SocketOwner × List IoEvent :=
  if maxEvents = 0 then (o, [])
  else
    let (o, out) := burstRing o o.readyRing maxEvents []
    if o.readyOverflow then burstScan o.slotCapacity o (maxEvents - out.length) out else (o, out)

end SocketOwner

/-- What an owner does. -/
inductive OwnerEvent where
  | adopt (protocol : BitVec 8)
  | retire (id : Nat)
  | post (id : Nat) (events : BitVec 32) (poolOk ringOk : Bool)
  | burst (maxEvents : Nat)
  deriving DecidableEq, Repr

/-- Bits that were posted for a socket when `since` events had been handed out. -/
structure Posted where
  handle : Handle
  events : BitVec 32
  since : Nat
  deriving DecidableEq, Repr

/-- An owner with all events handed out so far, and what was posted for the sockets that have stayed
adopted since. -/
structure Readiness where
  owner : SocketOwner
  returned : List IoEvent := []
  posted : List Posted := []
  deriving DecidableEq, Repr

def readinessStep (st : Readiness) : OwnerEvent → Readiness
  | .adopt protocol => { st with owner := st.owner.adopt protocol }
  | .retire id =>
    { st with
      owner := st.owner.retire id
      posted := st.posted.filter fun p => p.handle.id ≠ id }
  | .post id events poolOk ringOk =>
    { st with
      owner := st.owner.readyPost id events poolOk ringOk
      posted :=
        match st.owner.at? id with
        | none => st.posted
        | some sk => st.posted ++ [⟨socketOwnerHandle sk, events, st.returned.length⟩] }
  | .burst maxEvents =>
    let (owner, out) := st.owner.readyBurst maxEvents
    { st with owner := owner, returned := st.returned ++ out }

/-- Runs from an owner without sockets. -/
def readinessSystem : System Readiness OwnerEvent where
  init st := ∃ lcoreId capacity, st = { owner := .init lcoreId capacity }
  enabled _ _ := True
  step := readinessStep

end SnowTG.Owner
