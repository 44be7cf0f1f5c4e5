import SnowTG.Lib.Serial

/-!
# TCP vocabulary

Sequence numbers, connection states and the compile-time limits shared by the
receive side, the send side and the scoreboard.  Answers of the environment
(allocations, pool levels, rings, timers) are read from a tape in the order in
which the code asks for them; zero stands for a failed request.
-/

namespace SnowTG.Tcp

open SnowTG.Lib

/-- Host-order 32-bit TCP sequence number. -/
abbrev Seq := BitVec 32

/-- Stream positions close enough for the serial comparison of their sequence numbers. -/
abbrev Near (lo a : Nat) : Prop := Serial.Near 32 lo a

/-- `TCP_STATUS`. -/
inductive Status where
  | closed
  | listen
  | synSent
  | synRecv
  | established
  | closeWait
  | lastAck
  | timeWait
  | closing
  | finWait1
  | finWait2
  deriving DecidableEq, Repr

/-- `struct tcp_sack_block`: a half-open sequence interval. -/
structure SackBlock where
  left : Seq
  right : Seq
  deriving DecidableEq, Repr

/-- Pending answers of the environment. -/
abbrev Tape := List Nat

/-- The next answer; an exhausted tape answers zero. -/
def Tape.ask (env : Tape) : Nat × Tape := (env.headD 0, env.tail)

def ringSize : Nat := 1024

def tcpMemoryChunkSize : Nat := 2048

def tcpMemoryLowWater : Nat := 64

def tcpMemoryHighWater : Nat := 128

def tcpRcvbufSize : Nat := 256 * 1024

def tcpSndbufSize : Nat := 64 * 1024

def tcpOfoMaxSegs : Nat := 32

def tcpOfoMaxBytes : Nat := tcpRcvbufSize

def tcpOfoOwnerMaxBytes : Nat := 4 * 1024 * 1024

def tcpOfoPressureEnterPercent : Nat := 75

def tcpOfoPressureExitPercent : Nat := 50

def tcpOfoPressureNearDistance : Nat := 16 * 1024

def tcpOfoPressureMediumDistance : Nat := 64 * 1024

/-- `ENOBUFS`, reported when a required timer cannot be armed. -/
def enobufs : Nat := 105

/-- `EAGAIN`. -/
def eagain : Nat := 11

end SnowTG.Tcp
