import SnowTG.Dispatch.Registry
import SnowTG.Endpoint.Bindings
import SnowTG.Lib.Loop

/-!
# Setting up endpoints

Binding, listening and connecting reserve local endpoints, enter sockets in the
hashes of their owner and register them with the dispatcher.  Sockets are named
by their address in memory, as the hashes name them, so the address of a freed
socket can come back.  What allocations, hashes and tables answer is part of a
call, as is the conflict that another owner can create between the search for a
port and its reservation.
-/

namespace SnowTG.Endpoint

open SnowTG.Dispatch SnowTG.Lib SnowTG.Owner Function

/-- What `rte_hash_add_key_data` answers for a key that is absent. -/
inductive HashAnswer where
  | added
  | noSpace
  | error
  deriving DecidableEq, Repr

/-- What the dispatch tables answer for a key that is not registered. -/
inductive TableAnswer where
  | entered
  | full
  | raced
  deriving DecidableEq, Repr

/-! ## Tables -/

/-- `hash_add_unique`. -/
def hashAddUnique {K : Type} [DecidableEq K] (hash : K → Option Nat) (key : K) (sk : Nat)
    (answer : HashAnswer) : (K → Option Nat) × Option Errno :=
  match hash key with
  | some old => (hash, if old = sk then none else some .addrInUse)
  | none =>
    match answer with
    | .added => (update hash key (some sk), none)
    | .noSpace => (hash, some .noSpace)
    | .error => (hash, some .io)

/-- `hash_del`. -/
def hashDel {K : Type} [DecidableEq K] (hash : K → Option Nat) (key : K) : K → Option Nat :=
  update hash key none

/-- `struct local_key`. -/
structure LocalKey where
  ip : BitVec 32
  port : BitVec 16
  deriving DecidableEq, Repr

/-- A registration by what is registered; `answer` is for a key that is not. -/
def registerKey {K : Type} [DecidableEq K] (map : K → Option (BitVec 32)) (key : K)
    (owner : BitVec 32) (answer : TableAnswer) : (K → Option (BitVec 32)) × DispatchResult :=
  match map key with
  | some held => (map, if held = owner then .ok else .addrInUse)
  | none =>
    match answer with
    | .entered => (update map key (some owner), .ok)
    | .full => (map, .noSpace)
    | .raced => (map, .again)

/-- `rx_dispatch_register_endpoint`, on what is registered. -/
def registerEndpoint (workers : List (BitVec 32)) (live : Registrations) (key : EndpointKey)
    (owner : BitVec 32) (answer : TableAnswer) : Registrations × DispatchResult :=
  if workers = [] then (live, .ok)
  else if !Registry.endpointValid workers key owner then (live, .inval)
  else
    let (endpoints, result) := registerKey live.endpoints key owner answer
    ({ live with endpoints := endpoints }, result)

/-- `rx_dispatch_unregister_endpoint`, on what is registered. -/
def unregisterEndpoint (live : Registrations) (key : EndpointKey) (owner : BitVec 32) :
    Registrations :=
  { live with endpoints := DispatchRun.unregistered live.endpoints key owner }

/-- `rx_dispatch_endpoint_is_registered`, on what is registered. -/
def endpointIsRegistered (live : Registrations) (key : EndpointKey) : Bool :=
  (live.endpoints key).isSome ||
    key.localIp ≠ 0 && (live.endpoints { key with localIp := 0 }).isSome

/-- `rx_dispatch_register_tcp_connection`, on what is registered. -/
def registerTcpConnection (workers : List (BitVec 32)) (live : Registrations) (key : FlowKey)
    (owner : BitVec 32) (answer : TableAnswer) : Registrations × DispatchResult :=
  if workers = [] then (live, .ok)
  else if !registerValid workers key owner then (live, .inval)
  else
    let (flows, result) := registerKey live.flows key owner answer
    ({ live with flows := flows }, result)

/-- `rx_dispatch_unregister_tcp_connection`, on what is registered. -/
def unregisterTcpConnection (live : Registrations) (key : FlowKey) (owner : BitVec 32) :
    Registrations :=
  { live with flows := DispatchRun.unregistered live.flows key owner }

/-- What a registration returns, as an error. -/
def dispatchErrno : DispatchResult → Option Errno
  | .ok => none
  | .inval => some .inval
  | .again => some .again
  | .addrInUse => some .addrInUse
  | .noSpace => some .noSpace

/-- The reservations, the registrations with the dispatcher, and the hashes of the owners'
`struct socket_registry` with the addresses of the sockets. -/
structure Tables where
  index : BindIndex := {}
  dispatch : Registrations := {}
  udpBindHash : BitVec 32 → LocalKey → Option Nat := fun _ _ => none
  tcpListenerHash : BitVec 32 → LocalKey → Option Nat := fun _ _ => none
  tcpConnHash : BitVec 32 → FlowKey → Option Nat := fun _ _ => none

/-- The hashes with that of one owner replaced. -/
def setHash {K : Type} (hashes : BitVec 32 → K → Option Nat) (owner : BitVec 32)
    (hash : K → Option Nat) : BitVec 32 → K → Option Nat :=
  update hashes owner hash

/-- The configuration that the calls read: the workers of the dispatcher, `g_net.local_ip`, and
whether the queue predicted for a connection is that of an owner. -/
structure Net where
  workers : List (BitVec 32) := []
  localIp : BitVec 32 := 0
  queueMatches : BitVec 32 → FlowKey → Bool := fun _ _ => true

namespace Nsock

def owner (sk : Nsock) : BitVec 32 := BitVec.ofNat 32 sk.handle.ownerLcore

/-- `local_key_make` for the socket. -/
def localKey (sk : Nsock) : LocalKey := ⟨sk.localIp, sk.localPort⟩

/-- The endpoint that a socket is registered under. -/
def endpointKey (sk : Nsock) : EndpointKey := ⟨sk.handle.protocol, sk.localIp, sk.localPort⟩

/-- `tcp_conn_key_make`. -/
def tcpConnKey (sk : Nsock) : FlowKey := ⟨sk.remoteIp, sk.localIp, sk.remotePort, sk.localPort⟩

/-- The socket has reserved its endpoint. -/
def bound (sk : Nsock) : Bool := sk.udpBind || sk.tcpBind

/-- The socket is a TCP socket. -/
def isTcp (sk : Nsock) : Bool := sk.handle.protocol = ipprotoTcp

/-- The socket is a UDP socket. -/
def isUdp (sk : Nsock) : Bool := sk.handle.protocol = ipprotoUdp

end Nsock

/-! ## Binding -/

structure BindAnswers where
  memory : Bool := true
  hash : HashAnswer := .added
  table : TableAnswer := .entered
  deriving DecidableEq, Repr

/-- How `nsock_bind_local` undoes the binding of a UDP socket. -/
def bindRollback (t : Tables) (sk : Nsock) : Tables × Nsock :=
  let t := { t with
    udpBindHash := setHash t.udpBindHash sk.owner (hashDel (t.udpBindHash sk.owner) sk.localKey) }
  let t := { t with index := t.index.socketBindRemove sk }
  (t, { sk with udpBind := false, localIp := 0, localPort := 0 })

/-- `nsock_bind_local` after the reservation was made: UDP sockets that do not share their endpoint
are entered in the hash of their owner and registered with the dispatcher. -/
def bindRegister (net : Net) (t : Tables) (p : Nat) (sk : Nsock) (answers : BindAnswers) :
    Tables × Nsock × Option Errno :=
  if sk.isUdp && !sk.reuseaddr then
    match hashAddUnique (t.udpBindHash sk.owner) sk.localKey p answers.hash with
    | (_, some e) =>
      let (t, sk) := bindRollback t sk
      (t, sk, some e)
    | (hash, none) =>
      let t := { t with udpBindHash := setHash t.udpBindHash sk.owner hash }
      let (dispatch, result) :=
        registerEndpoint net.workers t.dispatch sk.endpointKey sk.owner answers.table
      let t := { t with dispatch := dispatch }
      match dispatchErrno result with
      | none => (t, sk, none)
      | some e =>
        let (t, sk) := bindRollback t sk
        (t, sk, some e)
  else (t, sk, none)

/-- `nsock_bind_local`. -/
def nsockBindLocal (net : Net) (t : Tables) (p : Nat) (sk : Nsock) (ip : BitVec 32)
    (port : BitVec 16) (answers : BindAnswers) : Tables × Nsock × Option Errno :=
  if port = 0 || !(sk.isUdp || sk.isTcp) then (t, sk, some .inval)
  else if (if sk.isUdp then sk.udpBind else sk.tcpBind) then (t, sk, some .inval)
  else
    match t.index.socketBindAdd sk ip port answers.memory with
    | (_, some e) => (t, sk, some e)
    | (index, none) =>
      bindRegister net { t with index := index } p
        { sk with
          localIp := ip, localPort := port
          udpBind := sk.udpBind || sk.isUdp
          tcpBind := sk.tcpBind || sk.isTcp }
        answers

/-- `TCP_EPHEMERAL_PORT_MIN` and `UDP_EPHEMERAL_PORT_MIN`. -/
def ephemeralPortMin : BitVec 16 := 49152

/-- The number of ephemeral ports. -/
def ephemeralPortCount : Nat := 16384

theorem ephemeralPortCount_pos : 0 < ephemeralPortCount := by decide

/-- The port that `rte_rand_max` draws for a first search. -/
def ephemeralPort (drawn : Fin ephemeralPortCount) : BitVec 16 :=
  ephemeralPortMin + BitVec.ofNat 16 drawn

/-- The port after a port, in the cycle of the ephemeral ports. -/
def ephemeralAfter (port : BitVec 16) : BitVec 16 :=
  if port + 1 < ephemeralPortMin then ephemeralPortMin else port + 1

/-- What the loop of `nsock_udp_bind_ephemeral` works on, with the answers of the next turns. -/
structure EphemeralBind where
  tables : Tables
  sk : Nsock
  next : BitVec 16
  answers : List BindAnswers

/-- One turn of the loop: the next port is bound, and only a conflict makes it go on. -/
def EphemeralBind.turn (net : Net) (p : Nat) (ip : BitVec 32) (s : EphemeralBind) :
    Option (Option Errno) × EphemeralBind :=
  let (tables, sk, result) :=
    nsockBindLocal net s.tables p s.sk ip (ntohs s.next) (s.answers.headD {})
  let s := { tables, sk, next := ephemeralAfter s.next, answers := s.answers.tail }
  (if result = some .addrInUse then none else some result, s)

/-- `nsock_udp_bind_ephemeral`. -/
def nsockUdpBindEphemeral (net : Net) (t : Tables) (p : Nat) (sk : Nsock) (next : BitVec 16)
    (ip : BitVec 32) (drawn : Fin ephemeralPortCount) (answers : List BindAnswers) :
    Tables × Nsock × BitVec 16 × Option Errno :=
  if !sk.isUdp then (t, sk, next, some .inval)
  else if ip = 0 then (t, sk, next, some .addrNotAvail)
  else if sk.udpBind then (t, sk, next, if sk.localIp = ip then none else some .inval)
  else if sk.localIp ≠ 0 || sk.localPort ≠ 0 then (t, sk, next, some .inval)
  else
    let next := if next < ephemeralPortMin then ephemeralPort drawn else next
    let (result, s) := repeatUntil (EphemeralBind.turn net p ip) ephemeralPortCount
      { tables := t, sk := sk, next := next, answers := answers }
    (s.tables, s.sk, s.next, result.getD (some .addrNotAvail))

/-! ## Listening -/

structure ListenAnswers where
  ring : Bool := true
  hash : HashAnswer := .added
  table : TableAnswer := .entered
  deriving DecidableEq, Repr

/-- `nsock_tcp_listener_register`. -/
def nsockTcpListenerRegister (net : Net) (t : Tables) (p : Nat) (sk : Nsock)
    (answers : ListenAnswers) : Tables × Nsock × Option Errno :=
  if !sk.isTcp || !sk.tcpBind then (t, sk, some .inval)
  else
    match t.index.socketBindListen sk true with
    | (_, some e) => (t, sk, some e)
    | (index, none) =>
      match hashAddUnique (t.tcpListenerHash sk.owner) sk.localKey p answers.hash with
      | (_, some e) => ({ t with index := (index.socketBindListen sk false).1 }, sk, some e)
      | (hash, none) =>
        let (dispatch, result) :=
          registerEndpoint net.workers t.dispatch sk.endpointKey sk.owner answers.table
        let t := { t with
          tcpListenerHash := setHash t.tcpListenerHash sk.owner hash, dispatch := dispatch }
        match dispatchErrno result with
        | some e =>
          ({ t with
              index := (index.socketBindListen sk false).1
              tcpListenerHash := setHash t.tcpListenerHash sk.owner
                (hashDel (t.tcpListenerHash sk.owner) sk.localKey) }, sk, some e)
        | none => ({ t with index := index }, { sk with tcpListener := true }, none)

/-- What a call returns; the error is absent where `errno` is left as it was. -/
inductive CallResult where
  | ok
  | inProgress
  | failed (errno : Option Errno)
  deriving DecidableEq, Repr

/-- `tcp_listen`. -/
def tcpListen (net : Net) (t : Tables) (p : Nat) (sk : Nsock) (answers : ListenAnswers) :
    Tables × Nsock × CallResult :=
  if sk.status = .listen then (t, sk, .ok)
  else if sk.status ≠ .closed then (t, sk, .failed (some .inval))
  else
    let sk := { sk with status := .listen, remoteIp := 0, remotePort := 0 }
    if !answers.ring then (t, { sk with status := .closed }, .failed none)
    else
      match nsockTcpListenerRegister net t p sk answers with
      | (t, sk, none) => (t, sk, .ok)
      | (t, sk, some e) => (t, { sk with status := .closed }, .failed (some e))

/-! ## Connecting -/

structure ConnAnswers where
  hash : HashAnswer := .added
  table : TableAnswer := .entered
  deriving DecidableEq, Repr

/-- `nsock_tcp_conn_register`. -/
def nsockTcpConnRegister (net : Net) (t : Tables) (p : Nat) (sk : Nsock) (answers : ConnAnswers) :
    Tables × Nsock × Option Errno :=
  match hashAddUnique (t.tcpConnHash sk.owner) sk.tcpConnKey p answers.hash with
  | (_, some e) => (t, sk, some e)
  | (hash, none) =>
    let (dispatch, result) :=
      registerTcpConnection net.workers t.dispatch sk.tcpConnKey sk.owner answers.table
    let t := { t with
      tcpConnHash := setHash t.tcpConnHash sk.owner hash, dispatch := dispatch }
    match dispatchErrno result with
    | some e =>
      ({ t with
          tcpConnHash := setHash t.tcpConnHash sk.owner
            (hashDel (t.tcpConnHash sk.owner) sk.tcpConnKey) }, sk, some e)
    | none => (t, { sk with tcpConn := true }, none)

/-- A connection leaves the hash of its owner and the dispatcher. -/
def removeConn (t : Tables) (sk : Nsock) : Tables :=
  let t := { t with
    tcpConnHash := setHash t.tcpConnHash sk.owner
      (hashDel (t.tcpConnHash sk.owner) sk.tcpConnKey) }
  { t with dispatch := unregisterTcpConnection t.dispatch sk.tcpConnKey sk.owner }

/-- `nsock_tcp_conn_unregister`. -/
def nsockTcpConnUnregister (t : Tables) (sk : Nsock) : Tables × Nsock :=
  if sk.tcpConn then (removeConn t sk, { sk with tcpConn := false }) else (t, sk)

/-- `tcp_stream_set_status`. -/
def tcpStreamSetStatus (t : Tables) (sk : Nsock) (status : Tcp.Status) : Tables × Nsock :=
  let (t, sk) :=
    if sk.status ≠ .closed && status = .closed then nsockTcpConnUnregister t sk else (t, sk)
  (t, { sk with status := status })

/-- The tests on a port in the loop of `tcp_alloc_ephemeral_port`. -/
def ephemeralFree (net : Net) (t : Tables) (sk : Nsock) (port : BitVec 16) : Bool :=
  !t.index.socketBindTaken ipprotoTcp net.localIp port &&
    !endpointIsRegistered t.dispatch ⟨ipprotoTcp, net.localIp, port⟩ &&
    net.queueMatches sk.owner ⟨sk.remoteIp, sk.localIp, sk.remotePort, port⟩

/-- One turn of the loop of `tcp_alloc_ephemeral_port`. -/
def ephemeralTurn (free : BitVec 16 → Bool) (next : BitVec 16) :
    Option (BitVec 16) × BitVec 16 :=
  (if free (ntohs next) then some (ntohs next) else none, ephemeralAfter next)

/-- `tcp_alloc_ephemeral_port`. -/
def tcpAllocEphemeralPort (net : Net) (t : Tables) (sk : Nsock) (next : BitVec 16)
    (drawn : Fin ephemeralPortCount) : Option (BitVec 16) × BitVec 16 :=
  repeatUntil (ephemeralTurn (ephemeralFree net t sk)) ephemeralPortCount
    (if next = 0 then ephemeralPort drawn else next)

structure ConnectAnswers where
  drawn : Fin ephemeralPortCount := ⟨0, ephemeralPortCount_pos⟩
  /-- Another owner has reserved the port since it was found free. -/
  raced : Bool := false
  bind : BindAnswers := {}
  conn : ConnAnswers := {}
  /-- The owner's pool has a fragment for the SYN, and the queue of the socket has room for it. -/
  fragment : Bool := true
  syn : Bool := true
  timer : Bool := true
  deriving DecidableEq, Repr

/-- `tcp_connect` once the local endpoint is there. -/
def tcpConnectStart (net : Net) (t : Tables) (p : Nat) (sk : Nsock) (answers : ConnectAnswers) :
    Tables × Nsock × CallResult :=
  match nsockTcpConnRegister net t p sk answers.conn with
  | (t, sk, some _) => (t, sk, .failed (some .addrInUse))
  | (t, sk, none) =>
    if !answers.fragment || !answers.syn then
      let (t, sk) := nsockTcpConnUnregister t sk
      -- the allocation sets `errno`, the queue does not
      (t, sk, .failed (if answers.fragment then none else some .nobufs))
    else
      let (t, sk) := tcpStreamSetStatus t sk .synSent
      if !answers.timer then
        -- `tcp_abort_stream`; the socket is neither closed by its user nor a half-open child
        let (t, sk) := tcpStreamSetStatus t sk .closed
        (t, sk, .failed (some .nobufs))
      else (t, sk, .inProgress)

/-- The socket with the peer and the address that `tcp_connect` gives it. -/
def Nsock.aimedAt (sk : Nsock) (net : Net) (peer : BitVec 32 × BitVec 16) : Nsock :=
  { sk with
    remoteIp := peer.1, remotePort := peer.2
    localIp := if sk.localIp = 0 then net.localIp else sk.localIp }

/-- `tcp_connect` for a socket with its peer: the implicit bind, then the connection. -/
def tcpConnectAimed (net : Net) (t : Tables) (p : Nat) (sk : Nsock) (next : BitVec 16)
    (answers : ConnectAnswers) : Tables × Nsock × BitVec 16 × CallResult :=
  if sk.localPort = 0 then
    match tcpAllocEphemeralPort net t sk next answers.drawn with
    | (none, next) => (t, sk, next, .failed (some .addrNotAvail))
    | (some port, next) =>
      let sk := { sk with localPort := port }
      if answers.raced then (t, sk, next, .failed (some .addrInUse))
      else
        match nsockBindLocal net t p sk net.localIp port answers.bind with
        | (t, sk, some e) => (t, sk, next, .failed (some e))
        | (t, sk, none) =>
          let (t, sk, result) := tcpConnectStart net t p sk answers
          (t, sk, next, result)
  else
    let (t, sk, result) := tcpConnectStart net t p sk answers
    (t, sk, next, result)

/-- `tcp_connect`. -/
def tcpConnect (net : Net) (t : Tables) (p : Nat) (sk : Nsock) (next : BitVec 16)
    (addr : Option (BitVec 32 × BitVec 16)) (answers : ConnectAnswers) :
    Tables × Nsock × BitVec 16 × CallResult :=
  match addr with
  | none => (t, sk, next, .failed none)
  | some peer =>
    if sk.status ≠ .closed then (t, sk, next, .failed none)
    else tcpConnectAimed net t p (sk.aimedAt net peer) next answers

/-! ## Sockets -/

/-- A listener leaves the hash of its owner and the dispatcher. -/
def removeListener (t : Tables) (sk : Nsock) : Tables :=
  let t := { t with
    tcpListenerHash := setHash t.tcpListenerHash sk.owner
      (hashDel (t.tcpListenerHash sk.owner) sk.localKey) }
  { t with dispatch := unregisterEndpoint t.dispatch sk.endpointKey sk.owner }

/-- A UDP socket leaves the hash of its owner and the dispatcher. -/
def removeUdp (t : Tables) (sk : Nsock) : Tables :=
  let t := { t with
    udpBindHash := setHash t.udpBindHash sk.owner (hashDel (t.udpBindHash sk.owner) sk.localKey) }
  { t with dispatch := unregisterEndpoint t.dispatch sk.endpointKey sk.owner }

/-- The entries of a socket in the hashes, the dispatcher and the index are removed. -/
def removeEntries (t : Tables) (sk : Nsock) : Tables :=
  let t := if sk.tcpConn then removeConn t sk else t
  let t := if sk.tcpListener then removeListener t sk else t
  let t := if sk.udpBind && !sk.reuseaddr then removeUdp t sk else t
  if sk.bound then { t with index := t.index.socketBindRemove sk } else t

/-- `nsock_free`. -/
def nsockFree (t : Tables) (sk : Nsock) : Tables :=
  let (t, sk) :=
    if sk.isTcp && sk.status = .timeWait then tcpStreamSetStatus t sk .closed else (t, sk)
  removeEntries t sk

/-- The socket of a passive open, as `tcp_stream_create` sets it up. -/
def passiveSocket (handle : Handle) (key : FlowKey) : Nsock where
  handle := handle
  localIp := key.localIp
  localPort := key.localPort
  remoteIp := key.remoteIp
  remotePort := key.remotePort
  status := .synRecv

/-- `tcp_stream_create`, for a child that has its slot. -/
def tcpStreamCreate (net : Net) (t : Tables) (p : Nat) (handle : Handle) (key : FlowKey)
    (answers : ConnAnswers) : Tables × Option Nsock :=
  match nsockTcpConnRegister net t p (passiveSocket handle key) answers with
  | (t, sk, some _) => (nsockFree t sk, none)
  | (t, sk, none) => (t, some sk)

/-- All tables and sockets, and the ports at which the owners search next. -/
structure World where
  tables : Tables := {}
  socks : Nat → Option Nsock := fun _ => none
  tcpNext : BitVec 32 → BitVec 16 := fun _ => 0
  udpNext : BitVec 32 → BitVec 16 := fun _ => 0

/-- The calls that set up an endpoint. -/
inductive SetupCall where
  | bind (ip : BitVec 32) (port : BitVec 16) (answers : BindAnswers)
  | bindEphemeral (ip : BitVec 32) (drawn : Fin ephemeralPortCount) (answers : List BindAnswers)
  | listen (answers : ListenAnswers)
  | connect (addr : Option (BitVec 32 × BitVec 16)) (answers : ConnectAnswers)
  deriving DecidableEq, Repr

/-- What a call of `nsock_bind_local` or its kind returns. -/
def bindResult : Option Errno → CallResult
  | none => .ok
  | some e => .failed (some e)

/-- A call on the socket at an address; listening and connecting are operations of TCP. -/
def SetupCall.run (net : Net) (w : World) (p : Nat) (sk : Nsock) : SetupCall → World × CallResult
  | .bind ip port answers =>
    let (t, sk, result) := nsockBindLocal net w.tables p sk ip port answers
    ({ w with tables := t, socks := update w.socks p (some sk) }, bindResult result)
  | .bindEphemeral ip drawn answers =>
    let (t, sk', next, result) :=
      nsockUdpBindEphemeral net w.tables p sk (w.udpNext sk.owner) ip drawn answers
    ({ w with
        tables := t, socks := update w.socks p (some sk')
        udpNext := update w.udpNext sk.owner next }, bindResult result)
  | .listen answers =>
    if !sk.isTcp then (w, .failed none)
    else
      let (t, sk, result) := tcpListen net w.tables p sk answers
      ({ w with tables := t, socks := update w.socks p (some sk) }, result)
  | .connect addr answers =>
    if !sk.isTcp then (w, .failed none)
    else
      let (t, sk', next, result) :=
        tcpConnect net w.tables p sk (w.tcpNext sk.owner) addr answers
      ({ w with
          tables := t, socks := update w.socks p (some sk')
          tcpNext := update w.tcpNext sk.owner next }, result)

/-- What happens to the sockets of the process. -/
inductive SetupEvent where
  /-- A new socket at an address, with a handle that no other socket has. -/
  | create (p : Nat) (handle : Handle)
  /-- `SO_REUSEADDR` is set. -/
  | reuseAddr (p : Nat) (enabled : Bool)
  | call (p : Nat) (call : SetupCall)
  /-- The stream of a socket moves on. -/
  | setStatus (p : Nat) (status : Tcp.Status)
  /-- A segment opens a stream passively. -/
  | passive (p : Nat) (handle : Handle) (key : FlowKey) (answers : ConnAnswers)
  | free (p : Nat)
  deriving DecidableEq, Repr

namespace World

/-- An event on the socket at an address; nothing without a socket. -/
def onSock (w : World) (p : Nat) (f : Nsock → World) : World :=
  match w.socks p with
  | none => w
  | some sk => f sk

def step (net : Net) (w : World) : SetupEvent → World
  | .create p handle => { w with socks := update w.socks p (some { handle := handle }) }
  | .reuseAddr p enabled => w.onSock p fun sk =>
    if sk.udpBind || sk.tcpBind || sk.tcpListener || sk.tcpConn then w
    else { w with socks := update w.socks p (some { sk with reuseaddr := enabled }) }
  | .call p call => w.onSock p fun sk => (call.run net w p sk).1
  | .setStatus p status => w.onSock p fun sk =>
    let (t, sk) := tcpStreamSetStatus w.tables sk status
    { w with tables := t, socks := update w.socks p (some sk) }
  | .passive p handle key answers =>
    let (t, sk) := tcpStreamCreate net w.tables p handle key answers
    { w with tables := t, socks := update w.socks p sk }
  | .free p => w.onSock p fun sk =>
    { w with tables := nsockFree w.tables sk, socks := update w.socks p none }

/-- An address and a handle that no socket has. -/
def Fresh (w : World) (p : Nat) (handle : Handle) : Prop :=
  w.socks p = none ∧ ∀ q sk, w.socks q = some sk → sk.handle ≠ handle

/-- New sockets are at free addresses and have handles of their own.  The stream of a socket moves
on while it is open, and a listener stays one until it is freed. -/
def Enabled (w : World) : SetupEvent → Prop
  | .create p handle => w.Fresh p handle
  | .passive p handle _ _ => w.Fresh p handle ∧ handle.protocol = ipprotoTcp
  | .setStatus p status => ∀ sk, w.socks p = some sk →
      sk.isTcp ∧ sk.status ≠ .closed ∧ sk.status ≠ .listen ∧ status ≠ .listen
  | _ => True

end World

/-- Runs of the process, from a process without sockets. -/
def setupSystem (net : Net) : System World SetupEvent where
  init w := w = {}
  enabled := World.Enabled
  step := World.step net

end SnowTG.Endpoint
