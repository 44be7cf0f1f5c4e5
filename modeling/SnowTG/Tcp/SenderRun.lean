import SnowTG.Tcp.Ledger

/-!
# Runs of the sender

A connection that completed its handshake, under any order of application
calls, flushes, incoming segments and timeouts.  The passes of `tcp_tx_flush`
are events of their own, so that the states between them are states of a run,
and a whole flush is a sequence of such events.  Each event comes with whatever
the environment answers during it.
-/

namespace SnowTG.Tcp

open SnowTG.Lib

/-- The calls a stream can receive. -/
inductive SenderCall where
  | send (data : List UInt8)
  | close
  | recv (len : Nat)
  | flushControl
  | flushRecovery
  | flushPayload
  | segment (seg : Segment)
  | timer (now : Nat)
  deriving DecidableEq, Repr

/-- The stream after a call, and the bytes accepted from the application. -/
def SenderCall.apply (s : Stream) : SenderCall → Stream × List UInt8
  | .send data => ((tcpSend s data).2, sendAccepted (tcpSend s data).1 data)
  | .close => (tcpClose s, [])
  | .recv len => ((tcpRecv s len).2, [])
  | .flushControl => ((tcpTxFlushControl s.txQueue s).2, [])
  | .flushRecovery => ((flushRecoveryTurn s).2, [])
  | .flushPayload => ((flushPayloadRound s).2, [])
  | .segment seg => (tcpIngress s seg, [])
  | .timer now => (tcpTimerCb s now, [])

/-- The application calls only a socket it has not closed, and nothing happens to one that was
freed.  The passes of a flush need no condition: without a connection there is nothing to send. -/
def SenderCall.Allowed (s : Stream) : SenderCall → Prop
  | .send _ | .close | .recv _ => s.appClosed = false ∧ s.freed = false
  | .segment _ | .timer _ => s.freed = false
  | .flushControl | .flushRecovery | .flushPayload => True

instance (s : Stream) (call : SenderCall) : Decidable (call.Allowed s) := by
  cases call <;> unfold SenderCall.Allowed <;> infer_instance

/-- A call in its surroundings. -/
structure SenderEvent where
  call : SenderCall
  world : Surroundings := {}
  deriving DecidableEq, Repr

/-- One event of a run. -/
def senderStep (st : SenderState) (e : SenderEvent) : SenderState :=
  let applied := e.call.apply (st.stream.within e.world)
  { st.follow applied.1 with accepted := st.accepted ++ applied.2 }

/-- Runs of a sender from the end of the handshake on, its first byte having sequence number
`base`. -/
def senderSystem (base : Seq) : System SenderState SenderEvent where
  init st :=
    st.stream.status = .established ∧ st.stream.terminalError = 0 ∧
      st.stream.appClosed = false ∧ st.stream.freed = false ∧
      st.stream.sndUna = base ∧ st.stream.sentSeq = base ∧
      st.stream.sndbuf = tcpSndbufInit base ∧
      st.stream.toScoreboard = tcpSackStateInit st.stream.toScoreboard base ∧
      st.stream.finDeferred = false ∧ st.stream.out = [] ∧ st.stream.ccFlights = [] ∧
      st.accepted = [] ∧ st.una = 0 ∧ st.sent = 0 ∧ st.log = []
  enabled st e := e.call.Allowed st.stream
  step := senderStep

instance (base : Seq) (st : SenderState) (e : SenderEvent) :
    Decidable ((senderSystem base).enabled st e) :=
  inferInstanceAs (Decidable (e.call.Allowed st.stream))

/-- The states of the runs of a sender. -/
abbrev SenderReachable (base : Seq) (st : SenderState) : Prop :=
  (senderSystem base).Reach (fun _ _ => True) st

variable {base : Seq} {st : SenderState}

theorem within_steady (s : Stream) (w : Surroundings) : s.Steady (s.within w) :=
  .of_eq rfl rfl rfl rfl rfl rfl

/-- Every call but `tcp_send` is a move. -/
theorem apply_move {s : Stream} (hopen : s.status.phase ≠ .opening)
    (horder : Serial.lt s.sentSeq s.sndUna = false) (call : SenderCall)
    (hcall : ∀ data, call ≠ .send data) : s.Move (call.apply s).1 ∧ (call.apply s).2 = [] := by
  cases call with
  | send data => exact absurd rfl (hcall data)
  | close => exact ⟨tcpClose_move hopen, rfl⟩
  | recv len => exact ⟨tcpRecv_move s len, rfl⟩
  | flushControl => exact ⟨.steady (flushControl_steady _ s), rfl⟩
  | flushRecovery => exact ⟨flushRecovery_move s, rfl⟩
  | flushPayload => exact ⟨flushPayload_move s, rfl⟩
  | segment seg => exact ⟨(tcpIngress_outcome horder).move, rfl⟩
  | timer now => exact ⟨tcpTimerCb_move s now, rfl⟩

theorem senderStep_eq_follow {e : SenderEvent}
    (h : (e.call.apply (st.stream.within e.world)).2 = []) :
    senderStep st e = st.follow (e.call.apply (st.stream.within e.world)).1 := by
  rw [senderStep, h, List.append_nil]
  rfl

theorem SenderState.Inv.order (h : st.Inv base) :
    Serial.lt st.stream.sentSeq st.stream.sndUna = false := by
  have hnear := h.near
  rw [h.sentSeq, h.sndUna, Bool.eq_false_iff, ne_eq, Serial.Near.lt_iff base hnear
    (Serial.Near.between le_rfl le_rfl hnear.1 hnear)]
  exact Nat.not_lt_of_le hnear.1

theorem SenderState.Inv.sndbuf_ok (h : st.Inv base) : st.stream.sndbuf.Ok := by
  by_cases hgone : st.stream.status.phase = .gone
  · rw [h.empty hgone]
    exact sndbufInit_ok _
  · exact (h.books hgone).ok

theorem SenderState.Inv.not_opening (h : st.Inv base) : st.stream.status.phase ≠ .opening := by
  intro hphase
  have hfin := h.fin
  rw [hphase] at hfin
  exact hfin

theorem senderStep_inv (h : st.Inv base) (e : SenderEvent) : (senderStep st e).Inv base := by
  have hwithin := within_steady st.stream e.world
  by_cases hsend : ∃ data, e.call = .send data
  · obtain ⟨data, hcall⟩ := hsend
    rcases tcpSend_cases (s := st.stream.within e.world) h.sndbuf_ok data with
      ⟨hnone, hsame⟩ | happended
    · have hnil : (e.call.apply (st.stream.within e.world)).2 = [] := by rw [hcall]; exact hnone
      rw [senderStep_eq_follow hnil, hcall]
      have hfollow := h.steady hwithin
      rw [← hsame] at hfollow
      exact hfollow
    · rw [senderStep, hcall]
      exact h.appended (hwithin.appended rfl happended)
  · obtain ⟨hmove, hnil⟩ := apply_move (s := st.stream.within e.world) h.not_opening h.order
      e.call fun data hcall => hsend ⟨data, hcall⟩
    rw [senderStep_eq_follow hnil]
    exact h.move (hmove.after hwithin rfl)

theorem senderInit_inv (h : (senderSystem base).init st) : st.Inv base := by
  obtain ⟨hstatus, -, -, -, huna, hsent, hsndbuf, -, hdeferred, -, -, hacc, huna', hsent', hlog⟩ := h
  have hphase : st.stream.status.phase = .sending := by rw [hstatus]; rfl
  refine ⟨by rw [huna, huna', Serial.pos_zero], by rw [hsent, hsent', Serial.pos_zero],
    fun _ => ?_, fun hgone => absurd (hphase.symm.trans hgone) (by decide), ?_, ?_⟩
  · rw [hsndbuf, hacc, huna', hsent']
    exact ⟨le_rfl, zero_le, sndbufInit_ok base, rfl, (Serial.pos_zero base).symm, zero_le, rfl⟩
  · rw [hphase, hdeferred, hsent']
    exact ⟨rfl, zero_le⟩
  · rw [hlog, hsent', Nat.zero_min]
    exact ⟨by simp, by simp⟩

/-- The invariant holds in every state of every run. -/
theorem senderReachable_inv (h : SenderReachable base st) : st.Inv base :=
  h.invariant (fun _ hinit => senderInit_inv hinit) fun _ e hinv _ _ => senderStep_inv hinv e

end SnowTG.Tcp
