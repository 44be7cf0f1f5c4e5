import SnowTG.Endpoint.SetupInvariant

/-!
# Failing calls

A call that fails has changed nothing in the tables and left the socket its local
endpoint, if it is a bind or a listen.  `tcp_connect` keeps what it did to get a
local endpoint, and forgets a connection of the socket that is still in the hash.
-/

namespace SnowTG.Endpoint

open SnowTG.Dispatch SnowTG.Owner Function

/-- The tables are as before, and the socket has the local endpoint it had. -/
def Unchanged (w w' : World) (p : Nat) (sk : Nsock) : Prop :=
  w'.tables = w.tables ∧
    ∃ sk', w'.socks p = some sk' ∧ sk'.localIp = sk.localIp ∧ sk'.localPort = sk.localPort

/-- When a call that fails leaves no trace.  Connecting a closed socket to a peer does if the socket
has an address, and it has a port and no stale entry for the connection in the hash of its owner, or
no port can be found for it. -/
def SetupCall.Traceless (net : Net) (w : World) (p : Nat) (sk : Nsock) : SetupCall → Prop
  | .connect addr _ => ∀ peer, addr = some peer → sk.isTcp → sk.status = .closed →
      (sk.localIp ≠ 0 ∨ net.localIp = 0) ∧
        (sk.localPort ≠ 0 ∧
            w.tables.tcpConnHash sk.owner (sk.aimedAt net peer).tcpConnKey ≠ some p ∨
          sk.localPort = 0 ∧ Exhausted net w.tables (sk.aimedAt net peer))
  | _ => True

variable {net : Net} {w : World} {p : Nat} {sk : Nsock} {t t' : Tables} {sk' : Nsock}
  {socks : Nat → Option Nsock} {answers : ConnectAnswers} {errno : Option Errno}

theorem unchanged_self (hp : w.socks p = some sk) : Unchanged w w p sk :=
  ⟨rfl, sk, hp, rfl, rfl⟩

theorem unchanged_iff {w' : World} (htables : w'.tables = t) (hsock : w'.socks p = some sk') :
    Unchanged w w' p sk ↔
      t = w.tables ∧ sk'.localIp = sk.localIp ∧ sk'.localPort = sk.localPort := by
  rw [Unchanged, htables, hsock]
  simp

/-- A connection that is not made leaves the tables alone unless its socket has an entry in the hash
of its owner. -/
theorem tcpConnectStart_failed (h : Consistent net.workers t socks) (hclosed : sk.status = .closed)
    (hfail : tcpConnectStart net t p sk answers = (t', sk', .failed errno)) :
    (t' = t ↔ t.tcpConnHash sk.owner sk.tcpConnKey ≠ some p) ∧ sk'.localIp = sk.localIp ∧
      sk'.localPort = sk.localPort := by
  have hchanged : t.tcpConnHash sk.owner sk.tcpConnKey = some p →
      t'.tcpConnHash sk.owner sk.tcpConnKey = none → t' ≠ t := by
    rintro hentry hgone rfl
    cases hentry.symm.trans hgone
  rcases tcpConnectStart_cases net t p sk answers hclosed with
    ⟨t₁, heq, -⟩ | ⟨t₁, errno', heq, hcase⟩ | ⟨t₁, errno', heq, hconnects⟩
  · cases heq.symm.trans hfail
  · cases heq.symm.trans hfail
    refine ⟨?_, rfl, rfl⟩
    rcases hcase with ⟨hfresh, rfl⟩ | hforgets
    · exact iff_of_true rfl hfresh
    · refine iff_of_false (hchanged hforgets.entry ?_) (not_not_intro hforgets.entry)
      rw [hforgets.tables]
      simp only [setHash_apply, and_self, if_true]
  · cases heq.symm.trans hfail
    refine ⟨?_, rfl, rfl⟩
    rcases hconnects.entry with hentry | hnone
    · exact iff_of_false (hchanged hentry (removeConn_entry t₁ sk)) (not_not_intro hentry)
    · have hflow : t.dispatch.flows sk.tcpConnKey ≠ some sk.owner := by
        intro hlive
        have hheld := h.tcpConn hlive
        rw [hnone] at hheld
        simp at hheld
      refine iff_of_true (hconnects.undo rfl rfl hnone hflow) ?_
      rw [hnone]
      simp

theorem tcpConnectStart_localPort (net : Net) (t : Tables) (p : Nat) (answers : ConnectAnswers)
    (hclosed : sk.status = .closed) :
    (tcpConnectStart net t p sk answers).2.1.localPort = sk.localPort := by
  rcases tcpConnectStart_cases net t p sk answers hclosed with
    ⟨t₁, heq, -⟩ | ⟨t₁, errno, heq, -⟩ | ⟨t₁, errno, heq, -⟩
  · rw [heq]
  · rw [heq]
  · rw [heq]

/-- A connection that is not made leaves its socket the port it had, and the tables alone, if and
only if the socket had a port and no entry in the hash, or no port was found for it. -/
theorem connectAimed_failed {next next' : BitVec 16} (h : Consistent net.workers t socks)
    (htcp : sk.isTcp) (hclosed : sk.status = .closed) (hnext : next = 0 ∨ ephemeralPortMin ≤ next)
    (hfail : tcpConnectAimed net t p sk next answers = (t', sk', next', .failed errno)) :
    (sk'.localPort = sk.localPort ∧ t' = t ↔
      sk.localPort ≠ 0 ∧ t.tcpConnHash sk.owner sk.tcpConnKey ≠ some p ∨
        sk.localPort = 0 ∧ Exhausted net t sk) ∧
      (sk.localPort ≠ 0 ∨ Exhausted net t sk → sk'.localIp = sk.localIp) := by
  rcases tcpConnectAimed_cases net t p sk next answers htcp hnext with
    ⟨hport, hexhausted, next₁, -, heq⟩ | ⟨hport, hfound, port, next₁, hne, -, hcase⟩ |
    ⟨hport, t₁, sk₁, result, hstart, heq⟩
  · cases heq.symm.trans hfail
    exact ⟨iff_of_true ⟨rfl, rfl⟩ (.inr ⟨hport, hexhausted⟩), fun _ => rfl⟩
  · have hkept : sk'.localPort = port := by
      rcases hcase with ⟨errno', heq⟩ | ⟨t₁, -, -, t₂, sk₂, result, hstart, heq⟩
      · cases heq.symm.trans hfail
        rfl
      · cases heq.symm.trans hfail
        have hlocal := tcpConnectStart_localPort net t₁ p answers
          (show (Nsock.bindTo { sk with localPort := port } net.localIp port).status = .closed from
            hclosed)
        rw [hstart] at hlocal
        exact hlocal
    refine ⟨iff_of_false ?_ ?_, ?_⟩
    · rintro ⟨hsame, -⟩
      rw [hkept, hport] at hsame
      exact hne hsame
    · rintro (⟨hne, -⟩ | ⟨-, hexhausted⟩)
      · exact hne hport
      · exact hfound hexhausted
    · rintro (hne | hexhausted)
      · exact absurd hport hne
      · exact absurd hexhausted hfound
  · cases heq.symm.trans hfail
    obtain ⟨htables, hip, hsame⟩ := tcpConnectStart_failed h hclosed hstart
    refine ⟨?_, fun _ => hip⟩
    constructor
    · rintro ⟨-, hunchanged⟩
      exact .inl ⟨hport, htables.mp hunchanged⟩
    · rintro (⟨-, hfresh⟩ | ⟨hzero, -⟩)
      · exact ⟨hsame, htables.mpr hfresh⟩
      · exact absurd hzero hport

theorem World.Inv.unchanged_iff_traceless (hinv : w.Inv net) (hp : w.socks p = some sk)
    (call : SetupCall) (hfail : (call.run net w p sk).2 = .failed errno) :
    Unchanged w (call.run net w p sk).1 p sk ↔ call.Traceless net w p sk := by
  obtain ⟨sk', hsocks, hmove⟩ := hinv.call_move hp call
  generalize call.run net w p sk = done at hsocks hmove hfail ⊢
  obtain ⟨w', result⟩ := done
  obtain rfl : result = .failed errno := hfail
  have hsock : w'.socks p = some sk' := by
    rw [show w'.socks = _ from hsocks, update_self]
  rw [unchanged_iff rfl hsock]
  dsimp only at hmove
  generalize w'.tables = t', w'.tcpNext = tcpNext at hmove ⊢
  cases hmove with
  | idle hidle =>
    refine iff_of_true ⟨rfl, rfl, rfl⟩ ?_
    cases call with
    | connect addr answers =>
      rintro peer rfl htcp hclosed
      exact absurd hclosed (hidle peer answers rfl htcp)
    | _ => trivial
  | stays htcp hclosed => exact iff_of_true ⟨rfl, rfl, rfl⟩ trivial
  | @connects peer answers _ _ _ _ htcp hclosed hcall =>
    have haimed : (sk.aimedAt net peer).isTcp ∧ (sk.aimedAt net peer).status = .closed :=
      ⟨htcp, hclosed⟩
    obtain ⟨hiff, hip⟩ := connectAimed_failed hinv.consistent haimed.1 haimed.2
      (hinv.tcpNext sk.owner) hcall
    have hlocalIp : (sk.aimedAt net peer).localIp = sk.localIp ↔
        sk.localIp ≠ 0 ∨ net.localIp = 0 := by
      simp only [Nsock.aimedAt]
      split_ifs with hzero
      · simp [hzero]
      · exact iff_of_true rfl (.inl hzero)
    constructor
    · rintro ⟨htables, hsameIp, hport⟩ peer' hpeer - -
      obtain rfl := Option.some.inj hpeer
      have hcond := hiff.mp ⟨hport, htables⟩
      refine ⟨hlocalIp.mp ?_, hcond⟩
      rw [← hip (hcond.imp And.left And.right), hsameIp]
    · intro hcond
      obtain ⟨hip', hcond⟩ := hcond peer rfl htcp hclosed
      obtain ⟨hport, htables⟩ := hiff.mpr hcond
      refine ⟨htables, ?_, hport⟩
      rw [hip (hcond.imp And.left And.right), hlocalIp.mpr hip']

/-- There is no port, or a reservation of it by the socket with this handle. -/
def HoldsPort (t : Tables) (handle : Handle) (port : BitVec 16) : Prop :=
  port = 0 ∨ ∃ i, ∃ b ∈ t.index.bindings i, b.handle = handle ∧ b.port = port

/-- In every state that a run reaches, a call that fails leaves the reservations, the registrations,
the hashes and the local endpoint of the socket as they were if and only if it is no connect that
had to complete the local endpoint, or that found the connection of its socket still registered.
If it is none, the socket has no port without a reservation unless it had one before. -/
theorem failed_setup_unchanged_iff (h : (setupSystem net).Reach (fun _ _ => True) w)
    (hp : w.socks p = some sk) (call : SetupCall) {errno : Option Errno}
    (hfail : (call.run net w p sk).2 = .failed errno) :
    (Unchanged w (call.run net w p sk).1 p sk ↔ call.Traceless net w p sk) ∧
      (call.Traceless net w p sk → HoldsPort w.tables sk.handle sk.localPort →
        ∃ sk', (call.run net w p sk).1.socks p = some sk' ∧
          HoldsPort (call.run net w p sk).1.tables sk.handle sk'.localPort) := by
  have hiff := (World.reach_inv h).unchanged_iff_traceless hp call hfail
  refine ⟨hiff, fun htraceless hheld => ?_⟩
  obtain ⟨htables, sk', hsock, -, hport⟩ := hiff.mpr htraceless
  refine ⟨sk', hsock, ?_⟩
  rw [htables, hport]
  exact hheld

/-- A socket of the first worker. -/
def tcpHandle (id : Nat) : Handle where
  id := id
  generation := 1
  ownerLcore := 1
  protocol := ipprotoTcp

def oneWorker : Net where
  workers := [1]
  localIp := 0x0100000a

/-- The process with one new socket. -/
def oneSocket : World := World.step oneWorker {} (.create 0 (tcpHandle 0))

theorem oneSocket_reach : (setupSystem oneWorker).Reach (fun _ _ => True) oneSocket := by
  have hinit : (setupSystem oneWorker).Reach (fun _ _ => True) {} := .init rfl
  apply hinit.after (.create 0 (tcpHandle 0)) ⟨rfl, ?_⟩ trivial
  intro q sk hq
  simp at hq

/-- The socket when it is bound to port 80. -/
def boundSock : Nsock := Nsock.bindTo { handle := tcpHandle 0 } 0x0100000a 0x5000

def boundSocket : World := oneSocket.step oneWorker (.call 0 (.bind 0x0100000a 0x5000 {}))

/-- A connect that cannot allocate its SYN. -/
def connectWithoutSyn : SetupCall := .connect (some (0x0200000a, 0x5000)) { fragment := false }

/-- The connection was entered in the hash and the dispatcher, and is taken out again. -/
theorem failed_setup_unchanged_iff_without_syn :
    (connectWithoutSyn.run oneWorker boundSocket 0 boundSock).2 = .failed (some .nobufs) ∧
      Unchanged boundSocket (connectWithoutSyn.run oneWorker boundSocket 0 boundSock).1 0
        boundSock := by
  have hreach : (setupSystem oneWorker).Reach (fun _ _ => True) boundSocket :=
    oneSocket_reach.after (.call 0 (.bind 0x0100000a 0x5000 {})) trivial trivial
  have hsock : boundSocket.socks 0 = some boundSock := by decide +kernel
  have hfail : (connectWithoutSyn.run oneWorker boundSocket 0 boundSock).2 =
      .failed (some .nobufs) := by
    decide +kernel
  refine ⟨hfail, (failed_setup_unchanged_iff hreach hsock connectWithoutSyn hfail).1.mpr ?_⟩
  intro peer hpeer _ _
  obtain rfl := Option.some.inj hpeer
  exact ⟨.inl (by decide), .inl ⟨by decide, by decide +kernel⟩⟩

/-- A connect that cannot allocate its reservation. -/
def connectWithoutMemory : SetupCall :=
  .connect (some (0x0200000a, 0x5000)) { bind := { memory := false } }

/-- The connect fails, and the socket keeps the port that was found for it, and an address, without
a reservation. -/
theorem failed_connect_keeps_port :
    ∃ w, (setupSystem oneWorker).Reach (fun _ _ => True) w ∧
      w.socks 0 = some { handle := tcpHandle 0 } ∧
      (connectWithoutMemory.run oneWorker w 0 { handle := tcpHandle 0 }).2 =
        .failed (some .nomem) ∧
      ((connectWithoutMemory.run oneWorker w 0 { handle := tcpHandle 0 }).1.socks 0).map
        Nsock.localKey = some ⟨0x0100000a, 0x00c0⟩ ∧
      ∀ i, (connectWithoutMemory.run oneWorker w 0
        { handle := tcpHandle 0 }).1.tables.index.bindings i = [] := by
  refine ⟨oneSocket, oneSocket_reach, rfl, ?_, ?_, ?_⟩
  · decide +kernel
  · decide +kernel
  · intro i
    rfl

end SnowTG.Endpoint
