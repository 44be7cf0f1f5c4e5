import SnowTG.Lib.Linked
import SnowTG.Lib.System

/-!
# Scheduling of sockets for transmission

A socket with work to send is in the dirty FIFO.  One whose peer address is
unresolved is parked in a bucket chosen by that address.  Both kinds of list are
chained through the same two pointers of the socket.  A drain takes sockets from
the head of the FIFO and calls their flush handler, which may call back into the
operations on the lists.
-/

namespace SnowTG.Owner

open SnowTG.Lib SnowTG.Lib.Linked Function

/-- What a drain is doing: between two sockets, or inside the flush handler of one. -/
inductive DrainPhase where
  | idle
  | scanning (flushed budget : Nat)
  | flushing (sk flushed budget : Nat)
  deriving DecidableEq, Repr

/-- The transmit lists of `struct socket_registry`, and the fields of `struct nsock` they use, one
map per field.  The last three fields are history: every append draws a ticket, and a drain notes
the tickets of the sockets it visits. -/
structure TxRegistry where
  capacity : Nat
  links : Nat → Links Nat := fun _ => ⟨none, none⟩
  txArpIp : Nat → BitVec 32 := fun _ => 0
  txDirtyQueued : Nat → Bool := fun _ => false
  txArpWaiting : Nat → Bool := fun _ => false
  dirtyTxHead : Option Nat := none
  dirtyTxTail : Option Nat := none
  arpWait : BitVec 32 → Option Nat := fun _ => none
  dirtyDepth : Nat := 0
  phase : DrainPhase := .idle
  appended : Nat := 0
  ticket : Nat → Nat := fun _ => 0
  visited : List Nat := []

/-- `tx_arp_bucket`. -/
def txArpBucket (ip : BitVec 32) : BitVec 32 :=
  let ip := ip ^^^ (ip >>> 16)
  let ip := ip ^^^ (ip >>> 8)
  ip &&& (64 - 1)

/-- `dirty_fifo_append`. -/
def dirtyFifoAppend (r : TxRegistry) (sk : Nat) : TxRegistry :=
  if r.txDirtyQueued sk || r.txArpWaiting sk then r
  else
    { r with
      links := appendLinks r.links r.dirtyTxTail sk
      dirtyTxHead := if r.dirtyTxTail ≠ none then r.dirtyTxHead else some sk
      dirtyTxTail := some sk
      txDirtyQueued := update r.txDirtyQueued sk true
      dirtyDepth := r.dirtyDepth + 1
      appended := r.appended + 1
      ticket := update r.ticket sk r.appended }

/-- `dirty_fifo_unlink`. -/
def dirtyFifoUnlink (r : TxRegistry) (sk : Nat) : TxRegistry :=
  if !r.txDirtyQueued sk then r
  else
    { r with
      dirtyTxHead := if (r.links sk).prev ≠ none then r.dirtyTxHead else (r.links sk).next
      dirtyTxTail := if (r.links sk).next ≠ none then r.dirtyTxTail else (r.links sk).prev
      links := unlinkLinks r.links sk
      txDirtyQueued := update r.txDirtyQueued sk false
      dirtyDepth := if r.dirtyDepth > 0 then r.dirtyDepth - 1 else r.dirtyDepth }

/-- `dirty_fifo_pop`. -/
def dirtyFifoPop (r : TxRegistry) : Option Nat × TxRegistry :=
  match r.dirtyTxHead with
  | none => (none, r)
  | some sk => (some sk, dirtyFifoUnlink r sk)

/-- `arp_wait_link`. -/
def arpWaitLink (r : TxRegistry) (sk : Nat) : TxRegistry :=
  let bucket := txArpBucket (r.txArpIp sk)
  { r with
    links := pushLinks r.links (r.arpWait bucket) sk
    arpWait := update r.arpWait bucket (some sk)
    txArpWaiting := update r.txArpWaiting sk true }

/-- `arp_wait_unlink`. -/
def arpWaitUnlink (r : TxRegistry) (sk : Nat) : TxRegistry :=
  if !r.txArpWaiting sk then r
  else
    let bucket := txArpBucket (r.txArpIp sk)
    { r with
      arpWait :=
        if (r.links sk).prev ≠ none then r.arpWait
        else update r.arpWait bucket (r.links sk).next
      links := unlinkLinks r.links sk
      txArpIp := update r.txArpIp sk 0
      txArpWaiting := update r.txArpWaiting sk false }

/-- `nsock_tx_mark_dirty`. -/
def nsockTxMarkDirty (r : TxRegistry) (sk : Nat) : TxRegistry :=
  if r.txDirtyQueued sk || r.txArpWaiting sk then r else dirtyFifoAppend r sk

/-- `nsock_tx_dirty_unlink`. -/
def nsockTxDirtyUnlink (r : TxRegistry) (sk : Nat) : TxRegistry :=
  let r := if r.txDirtyQueued sk then dirtyFifoUnlink r sk else r
  let r := if r.txArpWaiting sk then arpWaitUnlink r sk else r
  { r with
    txDirtyQueued := update r.txDirtyQueued sk false
    txArpWaiting := update r.txArpWaiting sk false
    txArpIp := update r.txArpIp sk 0 }

/-- `nsock_tx_arp_wait`. -/
def nsockTxArpWait (r : TxRegistry) (sk : Nat) (remoteIp : BitVec 32) : TxRegistry :=
  let r := if r.txArpWaiting sk then arpWaitUnlink r sk else r
  let r := if r.txDirtyQueued sk then dirtyFifoUnlink r sk else r
  arpWaitLink { r with txArpIp := update r.txArpIp sk remoteIp } sk

/-- Loop of `nsock_tx_arp_resolved`; the next socket is read before this one moves. -/
def resolveFrom (remoteIp : BitVec 32) : Nat → Option Nat → TxRegistry → TxRegistry
  | 0, _, r => r
  | _ + 1, none, r => r
  | rounds + 1, some sk, r =>
    resolveFrom remoteIp rounds (r.links sk).next
      (if r.txArpIp sk = remoteIp then dirtyFifoAppend (arpWaitUnlink r sk) sk else r)

/-- `nsock_tx_arp_resolved`; a bucket has at most as many sockets as there are. -/
def nsockTxArpResolved (r : TxRegistry) (remoteIp : BitVec 32) : TxRegistry :=
  resolveFrom remoteIp r.capacity (r.arpWait (txArpBucket remoteIp)) r

/-- Results of a flush handler. -/
inductive FlushResult where
  | idle
  | retry
  | arpWait
  | destroyed
  deriving DecidableEq, Repr

/-- One round of the loop of `nsock_tx_dirty_drain` up to the flush handler, or its end.  A socket
without a handler is dropped. -/
def drainVisit (r : TxRegistry) (hasFlush : Bool) (flushed budget : Nat) : TxRegistry :=
  if flushed < budget then
    match dirtyFifoPop r with
    | (none, r) => { r with phase := .idle }
    | (some sk, r) =>
      { r with
        phase := if hasFlush then .flushing sk flushed budget else .scanning flushed budget
        visited := r.visited ++ [r.ticket sk] }
  else { r with phase := .idle }

/-- The rest of the round behind the flush handler. -/
def drainResult (r : TxRegistry) (sk flushed budget : Nat) (result : FlushResult) : TxRegistry :=
  let r := { r with phase := .scanning (flushed + 1) budget }
  if result = .destroyed then r
  else if !r.txDirtyQueued sk && !r.txArpWaiting sk && result = .retry then dirtyFifoAppend r sk
  else r

/-- Calls from outside, calls from a flush handler, and the steps of a drain. -/
inductive TxEvent where
  | markDirty (sk : Nat)
  | unlink (sk : Nat)
  | arpWait (sk : Nat) (remoteIp : BitVec 32)
  | arpResolved (remoteIp : BitVec 32)
  | drain (budget : Nat)
  | visit (hasFlush : Bool)
  | flushReturns (result : FlushResult)
  deriving DecidableEq, Repr

def txStep (r : TxRegistry) : TxEvent → TxRegistry
  | .markDirty sk => nsockTxMarkDirty r sk
  | .unlink sk => nsockTxDirtyUnlink r sk
  | .arpWait sk remoteIp => nsockTxArpWait r sk remoteIp
  | .arpResolved remoteIp => nsockTxArpResolved r remoteIp
  | .drain budget => { r with phase := .scanning 0 budget }
  | .visit hasFlush =>
    match r.phase with
    | .scanning flushed budget => drainVisit r hasFlush flushed budget
    | _ => r
  | .flushReturns result =>
    match r.phase with
    | .flushing sk flushed budget => drainResult r sk flushed budget result
    | _ => r

/-- Whether the loop of a drain, and not a caller or a flush handler, has control. -/
def DrainPhase.isScanning : DrainPhase → Bool
  | .scanning _ _ => true
  | _ => false

/-- Whether a flush handler has control. -/
def DrainPhase.isFlushing : DrainPhase → Bool
  | .flushing _ _ _ => true
  | _ => false

/-- A registry without queued or parked sockets.  Handlers do not drain. -/
def txSystem : System TxRegistry TxEvent where
  init r := ∃ capacity, r = { capacity := capacity }
  enabled r
    | .markDirty sk | .unlink sk | .arpWait sk _ => r.phase.isScanning = false ∧ sk < r.capacity
    | .arpResolved _ => r.phase.isScanning = false
    | .drain _ => r.phase = .idle
    | .visit _ => r.phase.isScanning = true
    | .flushReturns _ => r.phase.isFlushing = true
  step := txStep

instance (r : TxRegistry) : (e : TxEvent) → Decidable (txSystem.enabled r e)
  | .markDirty sk | .unlink sk | .arpWait sk _ =>
    inferInstanceAs (Decidable (r.phase.isScanning = false ∧ sk < r.capacity))
  | .arpResolved _ => inferInstanceAs (Decidable (r.phase.isScanning = false))
  | .drain _ => inferInstanceAs (Decidable (r.phase = .idle))
  | .visit _ => inferInstanceAs (Decidable (r.phase.isScanning = true))
  | .flushReturns _ => inferInstanceAs (Decidable (r.phase.isFlushing = true))

namespace TxRegistry

/-- The sockets in the FIFO, from the head along the pointers. -/
def fifo (r : TxRegistry) : List Nat := follow r.links r.capacity r.dirtyTxHead

/-- The sockets parked in a bucket. -/
def parked (r : TxRegistry) (bucket : BitVec 32) : List Nat :=
  follow r.links r.capacity (r.arpWait bucket)

end TxRegistry

end SnowTG.Owner
