import SnowTG.Dispatch.Registry
import SnowTG.Endpoint.Bindings

/-!
# Receiving a packet

`rx_dispatch_classify` names the worker that owns a packet, by the flow table,
the endpoint table, the shared UDP reservations, and last the receive queue or a
software hash.  `stack_runtime_rx_process` delivers a packet to the stack of the
worker that has it, or hands it to another one, which processes it again.  ARP
packets and fragments go through worker zero, which fans the former out and
reassembles the latter.
-/

namespace SnowTG.Endpoint.BindIndex

open SnowTG.Dispatch SnowTG.Owner

/-- `socket_bind_udp_shared`. -/
def socketBindUdpShared (x : BindIndex) (port : BitVec 16) : Bool := x.sharedUdp port ≠ 0

/-- `select_udp` and `socket_bind_udp_select`: the newest reservation of the address, else the
newest one of all addresses. -/
def socketBindUdpSelect (x : BindIndex) (ip : BitVec 32) (port : BitVec 16) : Option Handle :=
  let reserved := (x.bindings (bucket ipprotoUdp port)).filter fun b =>
    b.port = port && b.handle.protocol = ipprotoUdp
  match reserved.find? (·.ip = ip) with
  | some b => some b.handle
  | none => (reserved.find? (·.ip = 0)).map (·.handle)

end SnowTG.Endpoint.BindIndex

namespace SnowTG.Dispatch

open SnowTG.Endpoint SnowTG.Owner

/-- The values of `ether_type` that the receive path tells apart. -/
inductive EtherType where
  | arp
  | ipv4
  | other
  deriving DecidableEq, Repr

/-- A received packet.  The header fields are those the first segment holds as far as its length
goes; `cksumOk` says that the IPv4 header sums to zero, `identifier` and `typeCode` are what an ICMP
header has in place of the ports.  `learnOnly` is the flag in the first private word, and `tag` the
handle in the others when they are marked. -/
structure Mbuf where
  dataLen : Nat
  pktLen : Nat
  etherType : EtherType
  versionIhl : BitVec 8 := 0x45
  totalLength : Nat := 0
  fragmentOffset : BitVec 16 := 0
  cksumOk : Bool := true
  protocol : BitVec 8 := 0
  srcAddr : BitVec 32 := 0
  dstAddr : BitVec 32 := 0
  srcPort : BitVec 16 := 0
  dstPort : BitVec 16 := 0
  identifier : BitVec 16 := 0
  typeCode : BitVec 16 := 0
  learnOnly : Bool := false
  tag : Option Handle := none
  deriving DecidableEq, Repr

/-- `sizeof(struct rte_ether_hdr)`. -/
def ethLen : Nat := 14

/-- `sizeof(struct rte_ipv4_hdr)`. -/
def ipLen : Nat := 20

/-- `IPPROTO_ICMP`. -/
def ipprotoIcmp : BitVec 8 := 1

/-- `RTE_IPV4_HDR_DF_FLAG`. -/
def ipv4DfFlag : BitVec 16 := 0x4000

/-- `RTE_IPV4_HDR_MF_FLAG`. -/
def ipv4MfFlag : BitVec 16 := 0x2000

/-- `RTE_IPV4_HDR_OFFSET_MASK`. -/
def ipv4OffsetMask : BitVec 16 := 0x1fff

/-- The bit of the fragment field that must be zero. -/
def ipv4ReservedFlag : BitVec 16 := 0x8000

/-- `RTE_MAX_LCORE`. -/
def rteMaxLcore : Nat := 128

/-- The header is version 4 without options. -/
def Mbuf.plainHeader (m : Mbuf) : Bool := m.versionIhl = 0x45

/-- The offset, the more-fragments flag or the reserved flag is set. -/
def Mbuf.fragmented (m : Mbuf) : Bool :=
  m.fragmentOffset &&& (ipv4OffsetMask ||| ipv4MfFlag ||| ipv4ReservedFlag) ≠ 0

/-- What `port.c` knows of the device: whether it spreads by hash in hardware and for which
protocols, and the table of the software hash.  `softrss` is `rte_softrss` with the configured
key. -/
structure PortState where
  hardwareRss : Bool := false
  rssTcp : Bool := false
  rssUdp : Bool := false
  rssEnabled : Bool := false
  reta : List (BitVec 16) := []
  softrss : BitVec 32 → BitVec 32 → BitVec 32 → BitVec 32 := fun _ _ _ => 0

/-- `port_rx_uses_hardware_rss`. -/
def PortState.usesHardwareRss (p : PortState) (protocol : BitVec 8) : Bool :=
  if !p.hardwareRss then false
  else if protocol = ipprotoTcp then p.rssTcp
  else if protocol = ipprotoUdp then p.rssUdp
  else false

/-- `rte_be_to_cpu_32`. -/
def beToCpu32 (x : BitVec 32) : BitVec 32 :=
  (x.extractLsb' 0 8) ++ (x.extractLsb' 8 8) ++ (x.extractLsb' 16 8) ++ (x.extractLsb' 24 8)

/-- `port_flow_queue_for_ipv4`. -/
def PortState.flowQueueForIpv4 (p : PortState) (remoteIp localIp : BitVec 32)
    (remotePort localPort : BitVec 16) : Option Nat :=
  if !p.rssEnabled then none
  else
    let hash := p.softrss (beToCpu32 remoteIp) (beToCpu32 localIp)
      (ntohs remotePort ++ ntohs localPort)
    p.reta[hash.toNat % p.reta.length]?.map BitVec.toNat

/-- `struct rx_dispatch_result`; `fanout` is the action `RX_DISPATCH_FANOUT`. -/
structure DispatchVerdict where
  workerIndex : Nat := 0
  fanout : Bool := false
  ownerHit : Bool := false
  softwareHash : Bool := false
  parseFallback : Bool := false
  deriving DecidableEq, Repr

/-- What packets are classified by: the dispatch tables, the bind reservations and the port. -/
structure Classifier where
  registry : Registry
  bindings : BindIndex
  port : PortState

namespace Classifier

variable (c : Classifier)

/-- `rx_dispatch_apply_owner`. -/
def applyOwner (worker : Nat) : DispatchVerdict := { workerIndex := worker, ownerHit := true }

/-- `rx_dispatch_hash_or_hardware`. -/
def hashOrHardware (protocol : BitVec 8) (remoteIp localIp : BitVec 32)
    (remotePort localPort : BitVec 16) (rxQueue : Nat) : DispatchVerdict :=
  if c.port.usesHardwareRss protocol && rxQueue < c.registry.workers.length then
    { workerIndex := rxQueue }
  else
    match c.port.flowQueueForIpv4 remoteIp localIp remotePort localPort with
    | some worker =>
      if worker < c.registry.workers.length then
        { workerIndex := worker, softwareHash := true }
      else {}
    | none => {}

/-- The worker of a handle. -/
def handleWorker (handle : Handle) : Option Nat :=
  workerIndex c.registry.workers (BitVec.ofNat 32 handle.ownerLcore)

/-- The owner of a TCP packet: its connection, else its local endpoint. -/
def tcpOwner (m : Mbuf) : Option Nat :=
  match c.registry.lookupTcpConnection ⟨m.srcAddr, m.dstAddr, m.srcPort, m.dstPort⟩ with
  | some (some worker) => some worker
  | _ => c.registry.classifyEndpoint ⟨ipprotoTcp, m.dstAddr, m.dstPort⟩

/-- The socket that shares its address and is to receive a UDP packet. -/
def sharedSocket (m : Mbuf) : Option Handle :=
  if c.bindings.socketBindUdpShared m.dstPort then
    c.bindings.socketBindUdpSelect m.dstAddr m.dstPort
  else none

/-- The owner of a UDP packet: the socket it was tagged with, else one that shares the address,
which it is then tagged with, else its local endpoint. -/
def udpOwner (m : Mbuf) : Option Nat × Mbuf :=
  match m.tag.bind c.handleWorker with
  | some worker => (some worker, m)
  | none =>
    let shared := c.sharedSocket m
    let m' := match shared with
      | some handle => { m with tag := some handle }
      | none => m
    match shared.bind c.handleWorker with
    | some worker => (some worker, m')
    | none => (c.registry.classifyEndpoint ⟨ipprotoUdp, m.dstAddr, m.dstPort⟩, m')

/-- `rx_dispatch_classify` of an IPv4 packet without options that is no fragment; `available` is the
length of what follows the header. -/
def classifyIpv4 (m : Mbuf) (available rxQueue : Nat) : DispatchVerdict × Mbuf :=
  if m.protocol = ipprotoTcp then
    if available < 20 then ({ parseFallback := true }, m)
    else
      match c.tcpOwner m with
      | some worker => (applyOwner worker, m)
      | none =>
        (c.hashOrHardware ipprotoTcp m.srcAddr m.dstAddr m.srcPort m.dstPort rxQueue, m)
  else if m.protocol = ipprotoUdp then
    if available < 8 then ({ parseFallback := true }, m)
    else
      match c.udpOwner m with
      | (some worker, m) => (applyOwner worker, m)
      | (none, m) =>
        (c.hashOrHardware ipprotoUdp m.srcAddr m.dstAddr m.srcPort m.dstPort rxQueue, m)
  else if m.protocol = ipprotoIcmp ∧ available ≥ 6 then
    (c.hashOrHardware ipprotoIcmp m.srcAddr m.dstAddr m.identifier m.typeCode rxQueue, m)
  else (c.hashOrHardware m.protocol m.srcAddr m.dstAddr 0 0 rxQueue, m)

/-- `rx_dispatch_classify`: the verdict, and the packet with the tag it may have got. -/
def rxDispatchClassify (m : Mbuf) (rxQueue : Nat) : DispatchVerdict × Mbuf :=
  if c.registry.workers = [] then ({}, m)
  else if m.dataLen < ethLen ∨ m.pktLen < ethLen then ({ parseFallback := true }, m)
  else
    match m.etherType with
    | .arp => ({ fanout := true }, m)
    | .other => ({ parseFallback := true }, m)
    | .ipv4 =>
      if m.dataLen < ethLen + ipLen ∨ m.pktLen < ethLen + ipLen then
        ({ parseFallback := true }, m)
      else if !m.plainHeader || m.fragmentOffset &&& (ipv4OffsetMask ||| ipv4MfFlag) ≠ 0 then
        ({ parseFallback := true }, m)
      else c.classifyIpv4 m (m.dataLen - ethLen - ipLen) rxQueue

end Classifier

/-- `struct stack_runtime_worker` as far as receiving goes. -/
structure RxWorker where
  queueId : Nat
  rxQueueId : Nat
  reassembly : Bool
  directRxEnabled : Bool
  deriving DecidableEq, Repr

/-- The workers by queue with what they classify by.  Only worker zero reassembles, and every worker
polls the receive queue of its own number. -/
structure RxNetwork extends Classifier where
  workers : Nat → Option RxWorker
  queueId : ∀ q w, workers q = some w → w.queueId = q
  rxQueueId : ∀ q w, workers q = some w → w.rxQueueId = w.queueId
  reassembly : ∀ q w, workers q = some w → w.reassembly = decide (q = 0)

/-- What the environment answers while one packet is processed: the rings that have room, the clones
that can be made, and the packet that a fragment completes. -/
structure RxAnswers where
  room : Nat → Bool
  clone : Nat → Bool
  completed : Option Mbuf

/-- `ipv4_reassembly_process` with a table; no packet when it was kept or dropped. -/
def ipv4ReassemblyProcess (m : Mbuf) (completed : Option Mbuf) : Option Mbuf :=
  if m.dataLen < ethLen ∨ m.pktLen < ethLen then none
  else if m.etherType ≠ .ipv4 then some m
  else if m.dataLen < ethLen + ipLen ∨ m.pktLen < ethLen + ipLen then none
  else if !m.fragmented then some m
  else if !m.plainHeader || !m.cksumOk then none
  else if m.totalLength ≤ ipLen ∨ m.totalLength > m.pktLen - ethLen ∨
      m.fragmentOffset &&& (ipv4DfFlag ||| ipv4ReservedFlag) ≠ 0 then none
  else if m.fragmentOffset &&& ipv4MfFlag ≠ 0 ∧ (m.totalLength - ipLen) % 8 ≠ 0 then none
  else if (m.fragmentOffset &&& ipv4OffsetMask).toNat * 8 + (m.totalLength - ipLen) + ipLen >
      2 ^ 16 - 1 then none
  else
    completed.map fun whole =>
      { whole with fragmentOffset := whole.fragmentOffset &&& ipv4DfFlag, cksumOk := true }

/-- What becomes of a packet: the stack of the worker takes it, reassembly keeps or drops it, it is
dropped on the way to another worker, or that worker gets it. -/
inductive RxFate where
  | delivered
  | absorbed
  | dropped
  | handed
  deriving DecidableEq, Repr

/-- The fate of a packet, and what was put into the rings of other workers, clones included. -/
structure RxOutcome where
  fate : RxFate
  handed : List (Nat × Mbuf) := []
  deriving DecidableEq, Repr

namespace RxNetwork

variable (net : RxNetwork)

/-- A worker that takes packets from others polls this queue. -/
def takes (queue : Nat) : Bool :=
  queue < rteMaxLcore && (net.workers queue).any (·.directRxEnabled)

/-- `rx_forward`. -/
def rxForward (a : RxAnswers) (queue : Nat) (m : Mbuf) : RxOutcome :=
  if net.takes queue && a.room queue then { fate := .handed, handed := [(queue, m)] }
  else { fate := .dropped }

/-- The loop of `stack_runtime_rx_process` that hands clones of an ARP packet to the other
workers. -/
def rxFanout (a : RxAnswers) (m : Mbuf) : List (Nat × Mbuf) :=
  ((List.range rteMaxLcore).filter fun q => q ≠ 0 && net.takes q && a.clone q).flatMap fun q =>
    (net.rxForward a q { m with learnOnly := true }).handed

/-- Last part of `stack_runtime_rx_process`: hand the packet to the worker it belongs to, or deliver
it here. -/
def rxDeliver (a : RxAnswers) (w : RxWorker) (m : Mbuf) : RxOutcome :=
  let (verdict, m) := net.rxDispatchClassify m w.rxQueueId
  if verdict.workerIndex ≠ w.queueId then net.rxForward a verdict.workerIndex m
  else { fate := .delivered }

/-- `stack_runtime_rx_process`. -/
def stackRuntimeRxProcess (a : RxAnswers) (w : RxWorker) (m : Mbuf) : RxOutcome :=
  if m.dataLen ≥ ethLen ∧ m.etherType = .arp then
    if m.learnOnly then { fate := .delivered }
    else if w.queueId ≠ 0 then net.rxForward a 0 m
    else { fate := .delivered, handed := net.rxFanout a m }
  else if m.dataLen ≥ ethLen + ipLen ∧ w.queueId ≠ 0 ∧ m.etherType = .ipv4 ∧ m.fragmented = true then
    net.rxForward a 0 m
  else
    match if w.reassembly then ipv4ReassemblyProcess m a.completed else some m with
    | none => { fate := .absorbed }
    | some m => net.rxDeliver a w m

/-- The worker of a queue processes a packet. -/
def process (a : RxAnswers) (queue : Nat) (m : Mbuf) : RxOutcome :=
  match net.workers queue with
  | some w => net.stackRuntimeRxProcess a w m
  | none => { fate := .dropped }

end RxNetwork

/-- A copy of a packet: the worker that has it and the workers it was handed on by. -/
structure RxCopy where
  queue : Nat
  mbuf : Mbuf
  path : List Nat := []
  deriving DecidableEq, Repr

/-- A packet as a worker takes it from the device, with its private words cleared. -/
def RxCopy.received (queue : Nat) (m : Mbuf) : RxCopy :=
  { queue := queue, mbuf := { m with learnOnly := false, tag := none } }

/-- Processing the first copy puts the second into the ring of its worker. -/
def RxNetwork.Hands (net : RxNetwork) (c c' : RxCopy) : Prop :=
  ∃ a : RxAnswers, (c'.queue, c'.mbuf) ∈ (net.process a c.queue c.mbuf).handed ∧
    c'.path = c.path ++ [c.queue]

end SnowTG.Dispatch
