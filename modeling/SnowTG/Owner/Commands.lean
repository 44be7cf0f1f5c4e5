import SnowTG.Lib.System

/-!
# Socket commands

An application thread hands a command to the owner of a socket through a ring and
waits until it is done.  The owner executes commands, parks those that would block,
and completes them.  Callers may cancel or abandon a command at any time; the owner
may shut down.  Every locked section and every atomic operation is a step of its own.
The transport is not modelled: what it answers comes with the events.
-/

namespace SnowTG.Owner

open SnowTG.Lib

def eio : Nat := 5
def ebadf : Nat := 9
def eagain : Nat := 11
def enetdown : Nat := 100
def enobufs : Nat := 105
def etimedout : Nat := 110
def ealready : Nat := 114
def einprogress : Nat := 115
def ecanceled : Nat := 125

/-- `BURST_SIZE`. -/
def burstSize : Nat := 32

/-- `enum sock_cmd_type`. -/
inductive CmdType where
  | create | bind | connect | listen | accept | send | recv | sendto | recvfrom
  | setsockopt | getsockopt | close | flags | publish
  deriving DecidableEq, Repr

/-- `enum sock_cmd_state`. -/
inductive CmdState where
  | new | queued | running | parked | done | cancelled
  deriving DecidableEq, Repr

/-- Where the calling thread is in `socket_owner_call`, or later with the result. -/
inductive CallerPc where
  /-- in the loop that submits the command -/
  | submitting
  /-- in the loop that waits for it to be done -/
  | waiting
  /-- in `socket_owner_cancel`, with the cancellation requested and the owner not told -/
  | notifying (leaving : Bool)
  /-- with a result that has not been released -/
  | claiming
  /-- in `command_release_caller` -/
  | releasing
  /-- in `command_put` -/
  | dropping
  | gone
  deriving DecidableEq, Repr

/-- Where the caller is after `socket_owner_cancel`. -/
def CallerPc.afterCancel (leaving : Bool) : CallerPc := if leaving then .releasing else .waiting

/-- The fields of `struct sock_cmd` that its lifecycle works on.  `completions`, `effects`, `outcome`
and `freed` record what has happened to the command: how often it was completed, how often the
transport carried it out, what the transport answered last, and how often it was freed. -/
structure SockCmd where
  type : CmdType
  handle : Nat
  nonblock : Bool := false
  dontwait : Bool := false
  deadline : Bool := false
  state : CmdState := .new
  refs : Nat := 1
  cancelError : Nat := 0
  timer : Bool := false
  done : Bool := false
  result : Int := 0
  error : Nat := 0
  caller : CallerPc := .submitting
  submitted : Bool := false
  completions : Nat := 0
  effects : Nat := 0
  outcome : Option (Int × Nat) := none
  freed : Nat := 0
  deriving DecidableEq, Repr

/-- The waiters of a socket, in the order of the queues. -/
structure SockWaits where
  appClosed : Bool := false
  recvWait : List Nat := []
  sendWait : List Nat := []
  acceptWait : List Nat := []
  connectWaiter : Option Nat := none
  deriving DecidableEq, Repr

/-- A call of the owner that has not returned. -/
inductive Frame where
  /-- `owner_process_one`, at the call of the transport -/
  | process (c : Nat)
  /-- `socket_owner_wake_recv`, with the command taken off the queue -/
  | receiving (s c : Nat)
  /-- `socket_owner_wake_send`, with the command at the head of the queue -/
  | sending (s c : Nat)
  /-- `socket_owner_wake_accept`, with the command at the head of the queue -/
  | accepting (s c : Nat)
  /-- `socket_owner_complete` is called next -/
  | completing (c : Nat) (result : Int) (error : Nat)
  deriving DecidableEq, Repr

/-- Where the owner's loop is. -/
inductive OwnerPc where
  | polling
  /-- `command_cancellations`, with a notification taken -/
  | cancelling (c : Nat)
  | cancelPut (c : Nat)
  /-- `command_controls`, with the commands left and those deferred -/
  | controls (list deferred : List Nat)
  /-- `command_reap`, before and after the first reference is dropped -/
  | reaping (c : Nat) (list deferred : List Nat)
  | reaped (c : Nat) (list deferred : List Nat)
  /-- `socket_owner_shutdown_local`, with the lists it has detached -/
  | stopRings (control cancel : List Nat)
  | stopActive (control cancel : List Nat)
  | stopControl (control cancel : List Nat)
  | stopCancel (cancel : List Nat)
  | stopped
  deriving DecidableEq, Repr

/-- An owner with all commands that were ever created for it, those freed included. -/
structure CommandOwner where
  count : Nat := 0
  cmd : Nat → SockCmd := fun _ => { type := .create, handle := 0, refs := 0, caller := .gone }
  accepting : Bool := true
  closeRing : List Nat := []
  commandRing : List Nat := []
  batch : List Nat := []
  active : List Nat := []
  control : List Nat := []
  cancel : List Nat := []
  sockets : Nat → Option SockWaits := fun _ => none
  frames : List Frame := []
  pc : OwnerPc := .polling

/-- What the transport answers: a check before the operation fails, or the operation returns with
this value and `errno`. -/
inductive Answer where
  | refuse (error : Nat)
  | result (value : Int) (errno : Nat)
  deriving DecidableEq, Repr

/-- The error of `complete_transport_result`. -/
def transportError (value : Int) (errno : Nat) : Nat :=
  if value < 0 then if errno = 0 then eio else errno else 0

namespace CommandOwner

variable (st : CommandOwner)

def modify (c : Nat) (f : SockCmd → SockCmd) : CommandOwner :=
  { st with cmd := fun i => if i = c then f (st.cmd i) else st.cmd i }

def setSocket (s : Nat) (w : Option SockWaits) : CommandOwner :=
  { st with sockets := fun i => if i = s then w else st.sockets i }

end CommandOwner

namespace SockCmd

/-- `command_put`. -/
def put (cmd : SockCmd) : SockCmd :=
  { cmd with refs := cmd.refs - 1, freed := if cmd.refs = 1 then cmd.freed + 1 else cmd.freed }

/-- `socket_owner_complete`. -/
def complete (cmd : SockCmd) (result : Int) (error : Nat) : SockCmd :=
  if cmd.done then { cmd with timer := false }
  else
    { cmd with
      timer := false
      result := result
      error := error
      state :=
        if result < 0 && (error = ecanceled || error = etimedout) then .cancelled else .done
      done := true
      completions := cmd.completions + 1 }

/-- The transport has carried out the command. -/
def carriedOut (cmd : SockCmd) (result : Int) (error : Nat) : SockCmd :=
  { cmd with effects := cmd.effects + 1, outcome := some (result, error) }

end SockCmd

namespace SockWaits

/-- `command_unlink_wait`. -/
def unlink (w : SockWaits) (c : Nat) : SockWaits :=
  if c ∈ w.recvWait then { w with recvWait := w.recvWait.erase c }
  else if c ∈ w.sendWait then { w with sendWait := w.sendWait.erase c }
  else if c ∈ w.acceptWait then { w with acceptWait := w.acceptWait.erase c }
  else if w.connectWaiter = some c then { w with connectWaiter := none }
  else w

/-- The next waiter of `socket_owner_abort_waiters`, and the queues without it. -/
def nextAborted (w : SockWaits) : Option (Nat × SockWaits) :=
  match w.connectWaiter, w.recvWait, w.sendWait, w.acceptWait with
  | some c, _, _, _ => some (c, { w with connectWaiter := none })
  | none, c :: rest, _, _ => some (c, { w with recvWait := rest })
  | none, [], c :: rest, _ => some (c, { w with sendWait := rest })
  | none, [], [], c :: rest => some (c, { w with acceptWait := rest })
  | none, [], [], [] => none

end SockWaits

namespace CommandOwner

variable (st : CommandOwner)

/-- `command_cancel_local`.  What the abort of a connecting socket does is left to later events. -/
def cancelLocal (c error : Nat) : CommandOwner :=
  if (st.cmd c).done then st
  else
    match st.sockets (st.cmd c).handle with
    | none => st.modify c (·.complete (-1) error)
    | some w =>
      (st.setSocket (st.cmd c).handle (some (w.unlink c))).modify c (·.complete (-1) error)

/-! ## Callers -/

/-- `command_clone`. -/
def call (type : CmdType) (handle : Nat) (nonblock dontwait deadline : Bool) : CommandOwner :=
  { st.modify st.count fun _ =>
      { type := type, handle := handle, nonblock := nonblock, dontwait := dontwait,
        deadline := deadline } with
    count := st.count + 1 }

/-- One pass of the submission loop, under the lock.  `full` says that the ring is full. -/
def submit (c : Nat) (full : Bool) : CommandOwner :=
  if !st.accepting then st.modify c fun cmd => { cmd with caller := .dropping }
  else if full then st.modify c fun cmd => { cmd with state := .queued }
  else
    let st' := st.modify c fun cmd =>
      { cmd with state := .queued, refs := cmd.refs + 1, caller := .waiting, submitted := true }
    if (st.cmd c).type = .close then { st' with closeRing := st.closeRing ++ [c] }
    else { st' with commandRing := st.commandRing ++ [c] }

/-- The submission ends with an error: the ring is full and the command does not wait, its deadline
has passed, or the thread is cancelled. -/
def giveUp (c : Nat) : CommandOwner := st.modify c fun cmd => { cmd with caller := .dropping }

/-- The compare-and-exchange of `socket_owner_cancel`, after a timeout or when the thread is
cancelled (`leaving`). -/
def requestCancel (c error : Nat) (leaving : Bool) : CommandOwner :=
  st.modify c fun cmd =>
    if cmd.cancelError = 0 then
      { cmd with
        cancelError := if error = 0 then ecanceled else error
        caller := .notifying leaving }
    else { cmd with caller := .afterCancel leaving }

/-- The locked section of `socket_owner_cancel`. -/
def notifyCancel (c : Nat) (leaving : Bool) : CommandOwner :=
  if st.accepting then
    { st.modify c fun cmd => { cmd with refs := cmd.refs + 1, caller := .afterCancel leaving } with
      cancel := c :: st.cancel }
  else st.modify c fun cmd => { cmd with caller := .afterCancel leaving }

/-- The caller finds the command done. -/
def observe (c : Nat) : CommandOwner := st.modify c fun cmd => { cmd with caller := .claiming }

/-- The caller is through with the result. -/
def leave (c : Nat) : CommandOwner := st.modify c fun cmd => { cmd with caller := .releasing }

/-- The locked section of `command_release_caller`. -/
def release (c : Nat) : CommandOwner :=
  if st.accepting then
    { st.modify c fun cmd => { cmd with caller := .gone } with control := c :: st.control }
  else st.modify c fun cmd => { cmd with caller := .dropping }

/-- The caller drops its reference itself. -/
def drop (c : Nat) : CommandOwner := st.modify c fun cmd => { cmd.put with caller := .gone }

/-! ## The owner -/

/-- A burst is taken from the close ring or from the command ring. -/
def dequeue (close : Bool) : CommandOwner :=
  if close then
    { st with batch := st.closeRing.take burstSize, closeRing := st.closeRing.drop burstSize }
  else
    { st with batch := st.commandRing.take burstSize, commandRing := st.commandRing.drop burstSize }

/-- `command_start`, up to the call of the transport.  `expired` says that the deadline has passed,
`armed` that the timer could be armed. -/
def start (c : Nat) (rest : List Nat) (expired armed : Bool) : CommandOwner :=
  let st' : CommandOwner :=
    { st.modify c fun cmd => { cmd with state := .running } with
      batch := rest, active := c :: st.active }
  let cmd := st.cmd c
  if cmd.cancelError ≠ 0 then st'.cancelLocal c cmd.cancelError
  else if cmd.deadline && expired then st'.cancelLocal c etimedout
  else if cmd.deadline && !armed then st'.modify c (·.complete (-1) enobufs)
  else
    { st'.modify c fun cmd => { cmd with timer := cmd.deadline } with
      frames := .process c :: st.frames }

/-- The command is completed next, and the transport was not called. -/
def reject (c : Nat) (rest : List Frame) (error : Nat) : CommandOwner :=
  { st with frames := .completing c (-1) error :: rest }

/-- The transport has carried out the command, which is completed next. -/
def finish (c : Nat) (rest : List Frame) (value : Int) (errno : Nat) : CommandOwner :=
  { st.modify c (·.carriedOut value (transportError value errno)) with
    frames := .completing c value (transportError value errno) :: rest }

/-- The command waits in its socket, which has the queues `w` now, and the call returns:
`waitq_push`, `waitq_push_front`, or the waiter of a connect, which the transport has carried
out. -/
def park (c s : Nat) (w : SockWaits) (rest : List Frame) (effects : Nat) : CommandOwner :=
  { (st.setSocket s (some w)).modify c fun cmd =>
      { cmd with state := .parked, effects := cmd.effects + effects } with
    frames := rest }

/-- `owner_process_one` with what the transport answers. -/
def processOne (c : Nat) (rest : List Frame) (answer : Answer) : CommandOwner :=
  let cmd := st.cmd c
  if cmd.type = .create then
    match answer with
    | .refuse error => st.reject c rest error
    | .result value errno => st.finish c rest value errno
  else
    match st.sockets cmd.handle with
    | none => st.reject c rest ebadf
    | some w =>
      if w.appClosed then st.reject c rest ebadf
      else
        match answer with
        | .refuse error => st.reject c rest error
        | .result value errno =>
          match cmd.type with
          | .recv | .recvfrom =>
            st.park c cmd.handle { w with recvWait := w.recvWait ++ [c] } rest 0
          | .accept => st.park c cmd.handle { w with acceptWait := w.acceptWait ++ [c] } rest 0
          | .send =>
            if value < 0 && errno = eagain && !cmd.nonblock && !cmd.dontwait then
              st.park c cmd.handle { w with sendWait := w.sendWait ++ [c] } rest 0
            else st.finish c rest value errno
          | .sendto =>
            if value < 0 && errno = eagain && !cmd.nonblock then
              st.park c cmd.handle { w with sendWait := w.sendWait ++ [c] } rest 0
            else st.finish c rest value errno
          | .connect =>
            if w.connectWaiter.isSome then st.reject c rest ealready
            else if value < 0 && errno = einprogress && !cmd.nonblock then
              st.park c cmd.handle { w with connectWaiter := some c } rest 1
            else st.finish c rest value errno
          | .close =>
            (st.setSocket cmd.handle (some { w with appClosed := true })).finish c rest value
              errno
          | _ => st.finish c rest value errno

/-- The operation would block. -/
def wouldBlock (value : Int) (errno : Nat) : Bool := value < 0 && errno = eagain

/-- One turn of `socket_owner_wake_recv`, up to the call of the transport. -/
def wakeRecv (s : Nat) : CommandOwner :=
  match st.sockets s with
  | none => st
  | some w =>
    match w.recvWait with
    | [] => st
    | c :: rest =>
      let st' := st.setSocket s (some { w with recvWait := rest })
      if (st.cmd c).cancelError ≠ 0 then st'.cancelLocal c (st.cmd c).cancelError
      else
        { st'.modify c fun cmd => { cmd with state := .running } with
          frames := .receiving s c :: st.frames }

/-- The rest of that turn. -/
def received (s c : Nat) (rest : List Frame) (value : Int) (errno : Nat) : CommandOwner :=
  if wouldBlock value errno && !(st.cmd c).nonblock && !(st.cmd c).dontwait then
    match st.sockets s with
    | none => { st with frames := rest }
    | some w => st.park c s { w with recvWait := c :: w.recvWait } rest 0
  else st.finish c rest value errno

/-- One turn of `socket_owner_wake_send`, up to the call of the transport. -/
def wakeSend (s : Nat) : CommandOwner :=
  match st.sockets s with
  | none => st
  | some w =>
    match w.sendWait with
    | [] => st
    | c :: _ =>
      if (st.cmd c).cancelError ≠ 0 then st.cancelLocal c (st.cmd c).cancelError
      else { st with frames := .sending s c :: st.frames }

/-- The rest of that turn. -/
def sent (s c : Nat) (rest : List Frame) (value : Int) (errno : Nat) : CommandOwner :=
  if wouldBlock value errno then { st with frames := rest }
  else
    match st.sockets s with
    | none => st.finish c rest value errno
    | some w =>
      (st.setSocket s (some { w with sendWait := w.sendWait.tail })).finish c rest value errno

/-- One turn of `socket_owner_wake_accept`, up to the call of the transport. -/
def wakeAccept (s : Nat) : CommandOwner :=
  match st.sockets s with
  | none => st
  | some w =>
    match w.acceptWait with
    | [] => st
    | c :: _ =>
      if (st.cmd c).cancelError ≠ 0 then st.cancelLocal c (st.cmd c).cancelError
      else { st with frames := .accepting s c :: st.frames }

/-- The rest of that turn. -/
def accepted (s c : Nat) (rest : List Frame) (value : Int) (errno : Nat) : CommandOwner :=
  if wouldBlock value errno && !(st.cmd c).nonblock then { st with frames := rest }
  else
    match st.sockets s with
    | none => st.finish c rest value errno
    | some w =>
      (st.setSocket s (some { w with acceptWait := w.acceptWait.tail })).finish c rest value errno

/-- The transport answers the call on top. -/
def answered (answer : Answer) : CommandOwner :=
  match st.frames with
  | .process c :: rest => st.processOne c rest answer
  | .receiving s c :: rest =>
    match answer with
    | .result value errno => st.received s c rest value errno
    | .refuse _ => st
  | .sending s c :: rest =>
    match answer with
    | .result value errno => st.sent s c rest value errno
    | .refuse _ => st
  | .accepting s c :: rest =>
    match answer with
    | .result value errno => st.accepted s c rest value errno
    | .refuse _ => st
  | _ => st

/-- `socket_owner_complete` of the call on top. -/
def completed : CommandOwner :=
  match st.frames with
  | .completing c result error :: rest =>
    { st.modify c (·.complete result error) with frames := rest }
  | _ => st

/-- `socket_owner_complete_connect`. -/
def completeConnect (s error : Nat) : CommandOwner :=
  match st.sockets s with
  | none => st
  | some w =>
    match w.connectWaiter with
    | none => st
    | some c =>
      let result : Int := if error = 0 then 0 else -1
      (st.setSocket s (some { w with connectWaiter := none })).modify c fun cmd =>
        { cmd with outcome := some (result, error) }.complete result error

/-- One turn of the loops of `socket_owner_abort_waiters`. -/
def abortWaiter (s error : Nat) : CommandOwner :=
  match st.sockets s with
  | none => st
  | some w =>
    match w.nextAborted with
    | none => st
    | some (c, w) => (st.setSocket s (some w)).modify c (·.complete (-1) error)

/-- The end of `command_cancellations` for the notification taken. -/
def handleCancel (c : Nat) : CommandOwner :=
  { if (st.cmd c).state = .queued then st else st.cancelLocal c (st.cmd c).cancelError with
    pc := .cancelPut c }

/-- The next command of `command_controls`: put off while it is in a ring, reaped otherwise. -/
def nextControl (c : Nat) (list deferred : List Nat) : CommandOwner :=
  if (st.cmd c).state = .queued then { st with pc := .controls list (c :: deferred) }
  else
    let error := if (st.cmd c).cancelError = 0 then ecanceled else (st.cmd c).cancelError
    { st.cancelLocal c error with pc := .reaping c list deferred }

/-- One step of the owner's loop outside the calls of the transport. -/
def advance : CommandOwner :=
  match st.pc with
  | .cancelling c => st.handleCancel c
  | .cancelPut c => { st.modify c (·.put) with pc := .polling }
  | .controls (c :: list) deferred => st.nextControl c list deferred
  | .controls [] deferred => { st with control := deferred ++ st.control, pc := .polling }
  | .reaping c list deferred =>
    { st.modify c (·.put) with active := st.active.erase c, pc := .reaped c list deferred }
  | .reaped c list deferred => { st.modify c (·.put) with pc := .controls list deferred }
  | .stopRings control cancel =>
    match st.closeRing, st.commandRing with
    | c :: rest, _ =>
      { st.modify c fun cmd =>
          { cmd with cancelError := if cmd.cancelError = 0 then enetdown else cmd.cancelError }
        with closeRing := rest, batch := [c] }
    | [], c :: rest =>
      { st.modify c fun cmd =>
          { cmd with cancelError := if cmd.cancelError = 0 then enetdown else cmd.cancelError }
        with commandRing := rest, batch := [c] }
    | [], [] => { st with pc := .stopActive control cancel }
  | .stopActive control cancel =>
    match st.active with
    | [] => { st with pc := .stopControl control cancel }
    | c :: rest =>
      if (st.cmd c).done then { st.modify c (·.put) with active := rest }
      else st.cancelLocal c enetdown
  | .stopControl (c :: control) cancel =>
    { st.modify c (·.put) with pc := .stopControl control cancel }
  | .stopControl [] cancel => { st with pc := .stopCancel cancel }
  | .stopCancel (c :: cancel) => { st.modify c (·.put) with pc := .stopCancel cancel }
  | .stopCancel [] => { st with pc := .stopped }
  | .polling | .stopped => st

end CommandOwner

/-- What callers, the owner's loop and the transport do. -/
inductive CmdEvent where
  | call (type : CmdType) (handle : Nat) (nonblock dontwait deadline : Bool)
  | submit (c : Nat) (full : Bool)
  | giveUp (c : Nat)
  | requestCancel (c error : Nat) (leaving : Bool)
  | notifyCancel (c : Nat)
  | observe (c : Nat)
  | leave (c : Nat)
  | release (c : Nat)
  | drop (c : Nat)
  | dequeue (close : Bool)
  | start (expired armed : Bool)
  | answered (answer : Answer)
  | completed
  | wakeRecv (s : Nat)
  | wakeSend (s : Nat)
  | wakeAccept (s : Nat)
  | completeConnect (s error : Nat)
  | abortWaiter (s error : Nat)
  | adopt (s : Nat)
  | retire (s : Nat)
  | timeout (c : Nat)
  | takeCancel
  | takeControls
  | shutdown
  | advance
  deriving DecidableEq, Repr

namespace CommandOwner

variable (st : CommandOwner)

def step : CmdEvent → CommandOwner
  | .call type handle nonblock dontwait deadline => st.call type handle nonblock dontwait deadline
  | .submit c full => st.submit c full
  | .giveUp c => st.giveUp c
  | .requestCancel c error leaving => st.requestCancel c error leaving
  | .notifyCancel c =>
    match (st.cmd c).caller with
    | .notifying leaving => st.notifyCancel c leaving
    | _ => st
  | .observe c => st.observe c
  | .leave c => st.leave c
  | .release c => st.release c
  | .drop c => st.drop c
  | .dequeue close => st.dequeue close
  | .start expired armed =>
    match st.batch with
    | [] => st
    | c :: rest => st.start c rest expired armed
  | .answered answer => st.answered answer
  | .completed => st.completed
  | .wakeRecv s => st.wakeRecv s
  | .wakeSend s => st.wakeSend s
  | .wakeAccept s => st.wakeAccept s
  | .completeConnect s error => st.completeConnect s error
  | .abortWaiter s error => st.abortWaiter s error
  | .adopt s => st.setSocket s (some {})
  | .retire s => st.setSocket s none
  | .timeout c => st.cancelLocal c etimedout
  | .takeCancel =>
    match st.cancel with
    | [] => st
    | c :: rest => { st with cancel := rest, pc := .cancelling c }
  | .takeControls =>
    { st with
      control := st.control.drop burstSize
      pc := .controls (st.control.take burstSize) [] }
  | .shutdown =>
    { st with
      accepting := false
      control := []
      cancel := []
      pc := .stopRings st.control st.cancel }
  | .advance => st.advance

/-- Calls of the transport that can lead back into the owner. -/
def nests : Bool :=
  match st.frames with
  | [] | .process _ :: _ | .receiving _ _ :: _ => true
  | _ => false

/-- The owner is between two calls. -/
def Between : Prop := st.frames = [] ∧ st.batch = []

/-- The owner is between two turns of its loop. -/
def Polling : Prop := st.Between ∧ st.pc = .polling

/-- No call of the owner that goes on with the socket is open. -/
def Unused (s : Nat) : Prop :=
  ∀ f ∈ st.frames, ∀ c, f ≠ .receiving s c ∧ f ≠ .sending s c ∧ f ≠ .accepting s c

/-- When an event can happen.  A socket is retired after its waiters have been aborted. -/
def enabled : CmdEvent → Prop
  | .call .. => True
  | .submit c _ | .giveUp c => c < st.count ∧ (st.cmd c).caller = .submitting
  | .requestCancel c _ _ => c < st.count ∧ (st.cmd c).caller = .waiting
  | .notifyCancel c => c < st.count ∧ ∃ leaving, (st.cmd c).caller = .notifying leaving
  | .observe c => c < st.count ∧ (st.cmd c).caller = .waiting ∧ (st.cmd c).done
  | .leave c => c < st.count ∧ (st.cmd c).caller = .claiming
  | .release c => c < st.count ∧ (st.cmd c).caller = .releasing
  | .drop c => c < st.count ∧ (st.cmd c).caller = .dropping
  | .dequeue _ => st.Polling
  | .start _ _ => st.frames = [] ∧ st.batch ≠ []
  | .answered _ => st.frames ≠ []
  | .completed => st.frames ≠ []
  | .wakeRecv _ | .wakeSend _ | .wakeAccept _ | .completeConnect _ _ | .abortWaiter _ _ => st.nests
  | .adopt s => st.nests ∧ st.sockets s = none
  | .retire s => st.nests ∧ st.Unused s ∧ ∃ w, st.sockets s = some w ∧ w.nextAborted = none
  | .timeout c => st.Polling ∧ (st.cmd c).timer
  | .takeCancel => st.Polling ∧ st.cancel ≠ []
  | .takeControls => st.Polling
  | .shutdown => st.Polling
  | .advance => st.Between

end CommandOwner

/-- Runs from an owner without commands and sockets. -/
def commandSystem : System CommandOwner CmdEvent where
  init st := st = {}
  enabled := CommandOwner.enabled
  step := CommandOwner.step

end SnowTG.Owner
