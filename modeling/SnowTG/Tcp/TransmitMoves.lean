import SnowTG.Tcp.StreamMoves

/-!
# Moves of the transmit path and of the application calls

What a flush, `tcp_close`, `tcp_recv` and the timer callback do to the sender.
Everything but `tcp_send` is one of the moves of `Stream.Move`.
-/

namespace SnowTG.Tcp

open SnowTG.Lib List

variable {s t u : Stream} {seg : WireSeg} {bound : Nat} {chunk : List UInt8}

/-- One segment with bytes from the send buffer, read at its own sequence number, was emitted. -/
structure Stream.Emitted (s t : Stream) (seg : WireSeg) : Prop where
  out : t.out = s.out ++ [seg]
  bytes : ∃ chunk n, tcpSndbufPeek s.sndbuf seg.seq = some chunk ∧ seg.payload = chunk.take n
  sndUna : t.sndUna = s.sndUna
  finDeferred : t.finDeferred = s.finDeferred
  phase : t.status.phase = s.status.phase

/-- A retransmission. -/
structure Stream.Resent (s t : Stream) (seg : WireSeg) : Prop extends s.Emitted t seg where
  sentSeq : t.sentSeq = s.sentSeq
  sndbuf : t.sndbuf = s.sndbuf

/-- A segment of new data at `sent_seq`. -/
structure Stream.Sent (s t : Stream) (seg : WireSeg) : Prop extends s.Emitted t seg where
  seq : seg.seq = s.sentSeq
  unsent : Serial.lt s.sentSeq (s.sndbuf.headSeq + BitVec.ofNat 32 s.sndbuf.len) = true
  sentSeq : t.sentSeq = s.sentSeq + BitVec.ofNat 32 seg.payload.length
  sndbuf : t.sndbuf = { s.sndbuf with unacked := s.sndbuf.unacked + seg.payload.length }

/-- The FIN got the sequence number behind the last byte. -/
structure Stream.FinAssigned (s t : Stream) : Prop extends
    Stream.Still { s with
      sentSeq := s.sentSeq + 1, finDeferred := s.status.phase = .sending && s.finDeferred } t where
  due : (s.status.phase = .sending ∧
      Serial.lt s.sentSeq (s.sndbuf.headSeq + BitVec.ofNat 32 s.sndbuf.len) = false) ∨
    (s.status.phase = .closing ∧ s.finDeferred = true ∧
      s.sentSeq = s.sndUna + BitVec.ofNat 32 s.sndbuf.len)
  phase : t.status.phase = .closing

/-- The FIN waits behind bytes without a sequence number. -/
structure Stream.FinWaits (s t : Stream) : Prop extends
    Stream.Still { s with finDeferred := true } t where
  sending : s.status.phase = .sending
  unsent : Serial.lt s.sentSeq (s.sndbuf.headSeq + BitVec.ofNat 32 s.sndbuf.len) = true
  phase : t.status.phase = .closing

/-- The moves of the sender other than `tcp_send`. -/
inductive Stream.Move (s : Stream) : Stream → Prop where
  | steady {t : Stream} (h : s.Steady t) : s.Move t
  | acked {t : Stream} (ack : Seq) (h : s.Acked t ack)
      (hphase : t.status.phase = s.status.phase)
      (hshort : s.status.phase = .closing → ack ≠ s.sentSeq) : s.Move t
  | finAcked {t : Stream} (hclosing : s.status.phase = .closing) (h : s.Acked t s.sentSeq)
      (hphase : t.status.phase = .acked) : s.Move t
  | drained {t : Stream} (h : s.Drained t) : s.Move t
  | resent {t : Stream} (seg : WireSeg) (h : s.Resent t seg) : s.Move t
  | sent {t : Stream} (seg : WireSeg) (h : s.Sent t seg) : s.Move t
  | sentDrained {m t : Stream} (seg : WireSeg) (h : s.Sent m seg) (h' : m.Drained t) : s.Move t
  | finWaits {t : Stream} (h : s.FinWaits t) : s.Move t
  | finAssigned {t : Stream} (h : s.FinAssigned t) : s.Move t
  | finAssignedDrained {m t : Stream} (h : s.FinAssigned m) (h' : m.Drained t) : s.Move t

/-- A segment moves the sender in one of the ways above. -/
theorem Stream.SegmentOutcome.move {seg : Segment} (h : s.SegmentOutcome seg t) : s.Move t := by
  cases h with
  | steady h => exact .steady h
  | acked h hphase hshort => exact .acked _ h hphase hshort
  | finAcked hclosing _ hlast h hphase =>
    rw [hlast] at h
    exact .finAcked hclosing h hphase
  | finished _ _ _ h => exact .drained h
  | aborted h => exact .drained h.toDrained

theorem Stream.SteadyOrAborted.move {result : Bool × Stream} (h : s.SteadyOrAborted result) :
    s.Move result.2 := by
  rcases h with ⟨-, h⟩ | ⟨-, h⟩
  · exact .steady h
  · exact .drained h.toDrained

/-- The stream has asked the environment and looked at its scoreboard; what it has acknowledged, what
it may send and what it sent are as before. -/
def Stream.Prepared (s t : Stream) : Prop :=
  ∃ tp dsack recent, tp.sndUna = s.sndUna ∧ tp.sndMss = s.sndMss ∧ t = { s with
    toScoreboard := tp
    rx := { s.rx with dsackPending := dsack, sackRecentValid := recent } }

theorem Stream.Prepared.scoreboard {tp : Scoreboard} (huna : tp.sndUna = s.sndUna)
    (hmss : tp.sndMss = s.sndMss) : s.Prepared { s with toScoreboard := tp } :=
  ⟨tp, _, _, huna, hmss, rfl⟩

theorem Stream.Prepared.refl (s : Stream) : s.Prepared s := .scoreboard rfl rfl

theorem Stream.Prepared.trans (h : s.Prepared t) (h' : t.Prepared u) : s.Prepared u := by
  obtain ⟨tp, dsack, recent, huna, hmss, rfl⟩ := h
  obtain ⟨tp', dsack', recent', huna', hmss', rfl⟩ := h'
  exact ⟨tp', dsack', recent', huna'.trans huna, hmss'.trans hmss, rfl⟩

theorem Stream.Prepared.steady (h : s.Prepared t) : s.Steady t ∧ t.out = s.out := by
  obtain ⟨tp, dsack, recent, huna, -, rfl⟩ := h
  exact ⟨.of_eq rfl huna rfl rfl rfl rfl, rfl⟩

theorem Stream.Prepared.dataMss (h : s.Prepared t) (words : Nat) :
    tcpOptionsDataMss t words = tcpOptionsDataMss s words := by
  obtain ⟨tp, dsack, recent, -, hmss, rfl⟩ := h
  rw [tcpOptionsDataMss, tcpOptionsDataMss, Scoreboard.smss, Scoreboard.smss, hmss]

theorem ask_prepared (s : Stream) : s.Prepared s.ask.2 := .scoreboard rfl rfl

theorem optionsApply_prepared (s : Stream) : s.Prepared (tcpOptionsApplyEstablished s).2 :=
  ⟨s.ask.2.ask.2.ask.2.toScoreboard, _, _, rfl, rfl, rfl⟩

theorem cancelCandidate_prepared (s : Stream) : s.Prepared s.cancelCandidate := .scoreboard rfl rfl

/-- Emission of one segment, unless building it or the output ring fails. -/
theorem tcpEmit_cases (s : Stream) (seg : WireSeg) :
    (∃ t, s.Prepared t ∧ tcpEmit s seg = (false, t)) ∨
      ∃ t, s.Prepared t ∧ tcpEmit s seg = (true, { t with out := s.out ++ [seg] }) := by
  simp only [tcpEmit]
  split_ifs
  · exact .inl ⟨_, ask_prepared s, rfl⟩
  · exact .inl ⟨_, (ask_prepared s).trans (ask_prepared _), rfl⟩
  · exact .inr ⟨_, (ask_prepared s).trans (ask_prepared _), rfl⟩

theorem requeueControl_steady (s : Stream) (f : Fragment) (rest : List Fragment)
    (result : TxFlush) : s.Steady (requeueControl s f rest result).2 := by
  simp only [requeueControl]
  split_ifs <;> exact .of_eq rfl rfl rfl rfl rfl rfl

/-- Control segments carry no payload. -/
theorem flushControl_steady (queue : List Fragment) (s : Stream) :
    s.Steady (tcpTxFlushControl queue s).2 := by
  induction queue generalizing s with
  | nil => exact .of_eq rfl rfl rfl rfl rfl rfl
  | cons f rest ih =>
    simp only [tcpTxFlushControl]
    split_ifs with hmac hemitted
    · exact (ask_steady s).trans (requeueControl_steady _ _ _ _)
    · refine ((ask_steady s).trans ?_).trans (ih _)
      rcases tcpEmit_cases s.ask.2 f.toWire with ⟨t, -, hemit⟩ | ⟨t, hasked, hemit⟩
      · rw [hemit] at hemitted
        exact absurd hemitted Bool.false_ne_true
      · rw [hemit]
        have hsteady := hasked.steady.1
        exact ⟨{ hsteady with quiet := ⟨_, rfl, by simp [Fragment.toWire]⟩ }, hsteady.phase⟩
    · refine (ask_steady s).trans (Stream.Steady.trans ?_ (requeueControl_steady _ _ _ _))
      rcases tcpEmit_cases s.ask.2 f.toWire with ⟨t, hasked, hemit⟩ | ⟨t, -, hemit⟩
      · rw [hemit]
        exact hasked.steady.1
      · rw [hemit] at hemitted
        exact absurd rfl hemitted

theorem Stream.Steady.emitted (h : s.Steady t) (h' : t.Emitted u seg) (hout : t.out = s.out) :
    s.Emitted u seg where
  out := by rw [h'.out, hout]
  bytes := by rw [← h.sndbuf]; exact h'.bytes
  sndUna := h'.sndUna.trans h.sndUna
  finDeferred := h'.finDeferred.trans h.finDeferred
  phase := h'.phase.trans h.phase

theorem scheduleNext_sndMss (tp : Scoreboard) (sndbufEnd : Seq) (allowNewData : Bool) :
    (tcpSackScheduleNext tp sndbufEnd allowNewData).2.sndMss = tp.sndMss := by
  have hset : ∀ kind rule rescue seq stop,
      (candidateSet tp kind rule rescue seq stop).2.sndMss = tp.sndMss := by
    intro kind rule rescue seq stop
    simp only [candidateSet]
    split_ifs <;> rfl
  simp only [tcpSackScheduleNext]
  repeat' split
  all_goals first | rfl | exact hset _ _ _ _ _

theorem recoverySchedule_prepared (s : Stream) : s.Prepared (recoverySchedule s) := by
  simp only [recoverySchedule]
  split_ifs
  · exact .scoreboard (tcpSackScheduleNext_sndUna _ _ _) (scheduleNext_sndMss _ _ _)
  · exact .scoreboard rfl rfl
  · exact .refl s

/-- What `tcp_tx_flush_recovery_retransmit` does with its candidate: nothing, or it sends bytes from
the buffer, cut to size, with the current acknowledgement number. -/
theorem recoveryRetransmit_cases (s : Stream) (candidate : RecoveryCandidate) :
    s.Prepared (recoveryRetransmit s candidate).2 ∨
      ∃ t chunk n words, s.Prepared t ∧ tcpSndbufPeek s.sndbuf candidate.seq = some chunk ∧
        n ≤ tcpOptionsDataMss s words ∧
        (recoveryRetransmit s candidate).2 = { t with
          ackPending := false
          out := s.out ++ [{ seq := candidate.seq, ack := s.rx.recvAck, payload := chunk.take n,
                             optLen := words }] } := by
  cases hpeek : tcpSndbufPeek s.sndbuf candidate.seq with
  | none =>
    simp only [recoveryRetransmit, hpeek, ite_self]
    exact .inl (cancelCandidate_prepared s)
  | some chunk =>
    have hready := (ask_prepared s).trans (optionsApply_prepared s.ask.2)
    simp only [recoveryRetransmit, hpeek]
    split_ifs
    · exact .inl (cancelCandidate_prepared s)
    · exact .inl (ask_prepared s)
    · exact .inl hready
    · exact .inl (hready.trans (cancelCandidate_prepared _))
    · have hn : min (min (candidate.stop - candidate.seq).toNat (tcpOptionsDataMss
          (tcpOptionsApplyEstablished s.ask.2).2 (tcpOptionsApplyEstablished s.ask.2).1.2))
          chunk.length ≤ tcpOptionsDataMss s (tcpOptionsApplyEstablished s.ask.2).1.2 :=
        (min_le_left _ _).trans (min_le_right _ _)
      generalize min (min _ _) chunk.length = n at hn ⊢
      rcases tcpEmit_cases (tcpOptionsApplyEstablished s.ask.2).2
          { seq := candidate.seq, ack := (tcpOptionsApplyEstablished s.ask.2).2.rx.recvAck
            payload := chunk.take n, optLen := (tcpOptionsApplyEstablished s.ask.2).1.2 } with
        ⟨t, hasked, hemit⟩ | ⟨t, hasked, hemit⟩
      · rw [hemit]
        exact .inl (hready.trans hasked)
      · rw [hemit]
        have hcommit := tcpSackCommitCandidate_same t.toScoreboard
          (candidate.seq + BitVec.ofNat 32 n)
        exact .inr ⟨_, chunk, n, _,
          (hready.trans hasked).trans (.scoreboard hcommit.1 hcommit.2), rfl, hn, rfl⟩

/-- A recovery turn schedules, and may go on to send the candidate. -/
theorem flushRecoveryTurn_cases (s : Stream) : (flushRecoveryTurn s).2 = recoverySchedule s ∨
    ∃ candidate, (flushRecoveryTurn s).2 = (recoveryRetransmit (recoverySchedule s) candidate).2 := by
  have hturn : (flushRecoveryTurn s).2 = (tcpTxFlushRecoveryRetransmit s).2 := by
    rw [flushRecoveryTurn]
    split <;> simp_all
  rw [hturn, tcpTxFlushRecoveryRetransmit]
  cases (recoverySchedule s).pending with
  | none => exact .inl rfl
  | some candidate =>
    dsimp only
    split_ifs
    · exact .inr ⟨candidate, rfl⟩
    · exact .inl rfl

/-- A turn of loss recovery, one retransmission at most. -/
theorem flushRecovery_move (s : Stream) : s.Move (flushRecoveryTurn s).2 := by
  have hscheduled := recoverySchedule_prepared s
  rcases flushRecoveryTurn_cases s with heq | ⟨candidate, heq⟩ <;> rw [heq]
  · exact .steady hscheduled.steady.1
  · rcases recoveryRetransmit_cases (recoverySchedule s) candidate with
      hnext | ⟨t, chunk, n, words, hready, hpeek, -, hsent⟩
    · exact .steady (hscheduled.trans hnext).steady.1
    · rw [hsent]
      obtain ⟨hsteady, hout⟩ := hscheduled.steady
      rw [hsteady.sndbuf] at hpeek
      have hall := (hscheduled.trans hready).steady.1
      exact .resent _ ⟨{ hall with
        out := congrArg (· ++ _) hout, bytes := ⟨chunk, n, hpeek, rfl⟩ }, hall.sentSeq, hall.sndbuf⟩

/-- What `tcp_tx_flush_sndbuf` does; a segment it emits carries at most `bound` bytes. -/
inductive Stream.FlushOutcome (s : Stream) (bound : Nat) : SndbufFlush × Stream → Prop where
  | steady {t : Stream} (result : SndbufFlush) (h : s.Steady t) (hout : t.out = s.out) :
      s.FlushOutcome bound (result, t)
  | sent {t : Stream} (seg : WireSeg) (h : s.Sent t seg) (hbound : seg.payload.length ≤ bound) :
      s.FlushOutcome bound (.sent, t)
  | destroyed {m t : Stream} (seg : WireSeg) (h : s.Sent m seg)
      (hbound : seg.payload.length ≤ bound) (h' : m.Aborted t) :
      s.FlushOutcome bound (.destroyed, t)

theorem Stream.Sent.steady (h : s.Sent t seg) (h' : t.Steady u) (hout : u.out = t.out) :
    s.Sent u seg where
  out := hout.trans h.out
  bytes := h.bytes
  sndUna := h'.sndUna.trans h.sndUna
  finDeferred := h'.finDeferred.trans h.finDeferred
  phase := h'.phase.trans h.phase
  seq := h.seq
  unsent := h.unsent
  sentSeq := h'.sentSeq.trans h.sentSeq
  sndbuf := h'.sndbuf.trans h.sndbuf

theorem tcpArmTimer_out (s : Stream) : (tcpArmTimer s).2.out = s.out := by
  simp only [tcpArmTimer]
  split_ifs <;> rfl

theorem armOrAbort_true (s : Stream) {sendReset : Bool}
    (h : armOrAbort s sendReset = (true, t)) : t.out = s.out := by
  have hout := tcpArmTimer_out s
  rw [armOrAbort] at h
  generalize tcpArmTimer s = result at h hout
  obtain ⟨armed, u⟩ := result
  cases armed with
  | true =>
    obtain rfl : u = t := congrArg Prod.snd h
    exact hout
  | false => exact absurd (congrArg Prod.fst h) Bool.false_ne_true

theorem noteNewData_sndUna (tp : Scoreboard) (endSeq : Seq) :
    (tcpSackNoteNewData tp endSeq).sndUna = tp.sndUna := by
  rw [tcpSackNoteNewData]
  split_ifs <;> rfl

/-- Accounting turns a segment emitted at `sent_seq` into one that is sent. -/
theorem sndbufCharge_sent (h : s.Resent t seg) (hseq : seg.seq = s.sentSeq)
    (hunsent : Serial.lt s.sentSeq (s.sndbuf.headSeq + BitVec.ofNat 32 s.sndbuf.len) = true) :
    s.Sent (sndbufCharge t seg.payload.length) seg := by
  refine ⟨{ h with sndUna := ?_ }, hseq, hunsent, ?_, ?_⟩
  · simp only [sndbufCharge]
    split_ifs
    · exact (tcpSackCommitCandidate_same _ _).1.trans h.sndUna
    · exact (noteNewData_sndUna _ _).trans h.sndUna
  · rw [sndbufCharge, h.sentSeq]
  · rw [sndbufCharge, h.sndbuf]

theorem sndbufSent_outcome (h : s.Resent t seg) (hseq : seg.seq = s.sentSeq)
    (hunsent : Serial.lt s.sentSeq (s.sndbuf.headSeq + BitVec.ofNat 32 s.sndbuf.len) = true)
    (hbound : seg.payload.length ≤ bound) (wasIdle : Bool) :
    s.FlushOutcome bound (sndbufSent t wasIdle seg.payload.length) := by
  have hsent := sndbufCharge_sent h hseq hunsent
  rw [sndbufSent]
  cases wasIdle with
  | false => exact .sent seg hsent hbound
  | true =>
    have hidle := hsent.steady (u := { sndbufCharge t seg.payload.length with retries := 0 })
      (.of_eq rfl rfl rfl rfl rfl rfl) rfl
    rw [if_pos rfl]
    generalize ({ sndbufCharge t seg.payload.length with retries := 0 } : Stream) = m at hidle ⊢
    have hcases := armOrAbort_cases m true
    cases hresult : armOrAbort m true with
    | mk armed u =>
      rw [hresult] at hcases
      rcases hcases with ⟨harmed, hsteady⟩ | ⟨harmed, haborted⟩
      · obtain rfl : armed = true := harmed
        exact .sent seg (hidle.steady hsteady (armOrAbort_true m hresult)) hbound
      · obtain rfl : armed = false := harmed
        exact .destroyed seg hidle hbound haborted

theorem Stream.Steady.sent (h : s.Steady t) (hout : t.out = s.out) (h' : t.Sent u seg) :
    s.Sent u seg where
  toEmitted := h.emitted h'.toEmitted hout
  seq := h'.seq.trans h.sentSeq
  unsent := by rw [← h.sentSeq, ← h.sndbuf]; exact h'.unsent
  sentSeq := by rw [h'.sentSeq, h.sentSeq]
  sndbuf := by rw [h'.sndbuf, h.sndbuf]

theorem newDataBound_le (s : Stream) (seglen : Nat) : newDataBound s seglen ≤ seglen := by
  rw [newDataBound]
  cases s.pending with
  | none => exact le_refl seglen
  | some candidate =>
    simp only
    split_ifs
    · exact min_le_left _ _
    · exact le_refl seglen

theorem congestionInFlight_prepared (s : Stream) : s.Prepared (congestionInFlight s).2 := by
  simp only [congestionInFlight]
  split_ifs
  · exact .scoreboard rfl rfl
  · exact .refl s

theorem sndbufTransmit_cases (h : s.Prepared t) (chunk : List UInt8) (unsent seglen : Nat) :
    (sndbufTransmit t chunk unsent seglen).1 ≠ .destroyed ∧
        s.Prepared (sndbufTransmit t chunk unsent seglen).2 ∨
      ∃ u n words, s.Prepared u ∧ n ≤ seglen ∧ n ≤ tcpOptionsDataMss s words ∧
        sndbufTransmit t chunk unsent seglen = sndbufSent { u with
          out := s.out ++ [{ seq := s.sentSeq, ack := s.rx.recvAck, payload := chunk.take n,
                             optLen := words }] } (s.sndUna = s.sentSeq) n := by
  have hready := (h.trans (ask_prepared t)).trans (optionsApply_prepared t.ask.2)
  simp only [sndbufTransmit]
  split_ifs
  · exact .inl ⟨nofun, h.trans (ask_prepared t)⟩
  · exact .inl ⟨nofun, hready⟩
  · exact .inl ⟨nofun, hready⟩
  · generalize (tcpOptionsApplyEstablished t.ask.2).1.2 = words
    generalize (tcpOptionsApplyEstablished t.ask.2).2 = m at hready ⊢
    have hseglen : min seglen (tcpOptionsDataMss m words) ≤ seglen := min_le_left _ _
    have hmss : min seglen (tcpOptionsDataMss m words) ≤ tcpOptionsDataMss s words :=
      hready.dataMss words ▸ min_le_right _ _
    generalize min seglen _ = n at hseglen hmss ⊢
    rcases tcpEmit_cases m
        { seq := m.sentSeq, ack := m.rx.recvAck, payload := chunk.take n, optLen := words } with
      ⟨u, hasked, hemit⟩ | ⟨u, hasked, hemit⟩ <;> rw [hemit]
    · exact .inl ⟨nofun, hready.trans hasked⟩
    · have hall := hready.trans hasked
      have hidle : decide (u.sndUna = u.sentSeq) = decide (s.sndUna = s.sentSeq) := by
        rw [hall.steady.1.sndUna, hall.steady.1.sentSeq]
      obtain ⟨tp, dsack, recent, huna, -, rfl⟩ := hready
      exact .inr ⟨u, n, words, hall, hseglen, hmss, congrArg (sndbufSent _ · n) hidle⟩

/-- What `tcp_tx_flush_sndbuf` does: nothing, or it sends new bytes from the buffer, as many as the
peer's window leaves beside the bytes charged and the segment size allows. -/
theorem flushSndbuf_cases (s : Stream) :
    (tcpTxFlushSndbuf s).1 ≠ .destroyed ∧ s.Prepared (tcpTxFlushSndbuf s).2 ∨
      ∃ t chunk n words, s.Prepared t ∧ tcpSndbufPeek s.sndbuf s.sentSeq = some chunk ∧
        Serial.lt s.sentSeq (s.sndbuf.headSeq + BitVec.ofNat 32 s.sndbuf.len) = true ∧
        n ≤ chunk.length ∧ n ≤ s.sndWnd - (congestionInFlight s).1 ∧
        n ≤ tcpOptionsDataMss s words ∧
        tcpTxFlushSndbuf s = sndbufSent { t with
          out := s.out ++ [{ seq := s.sentSeq, ack := s.rx.recvAck, payload := chunk.take n,
                             optLen := words }] } (s.sndUna = s.sentSeq) n := by
  rw [tcpTxFlushSndbuf]
  split_ifs with hidle
  · exact .inl ⟨nofun, .refl s⟩
  simp only [Bool.or_eq_true, not_or, Bool.not_eq_true', Bool.not_eq_false] at hidle
  cases hpeek : tcpSndbufPeek s.sndbuf s.sentSeq with
  | none => exact .inl ⟨nofun, .refl s⟩
  | some chunk =>
    have hcharged : s.Prepared (tcpCcSendWindow (congestionInFlight s).2).2 :=
      (congestionInFlight_prepared s).trans (ask_prepared _)
    have hwnd : (tcpCcSendWindow (congestionInFlight s).2).2.sndWnd = s.sndWnd := by
      obtain ⟨tp, dsack, recent, -, -, heq⟩ := hcharged
      rw [heq]
    dsimp only
    generalize (tcpCcSendWindow (congestionInFlight s).2).1 = cwnd
    generalize (tcpCcSendWindow (congestionInFlight s).2).2 = m at hcharged hwnd ⊢
    generalize (s.sndbuf.headSeq + BitVec.ofNat 32 s.sndbuf.len - s.sentSeq).toNat = unsent
    have hbound := newDataBound_le m
      (min (min unsent (min m.sndWnd cwnd - (congestionInFlight s).1)) chunk.length)
    simp only [sndbufWindow]
    split_ifs
    · exact .inl ⟨nofun, hcharged⟩
    · exact .inl ⟨nofun, hcharged⟩
    · rcases sndbufTransmit_cases hcharged chunk unsent (newDataBound m _) with
        hidle | ⟨t, n, words, hready, hn, hmss, heq⟩
      · exact .inl hidle
      · exact .inr ⟨t, chunk, n, words, hready, rfl, hidle.2, by omega, by omega, hmss, heq⟩

/-- New data never exceeds what the peer's window leaves beside the outstanding bytes charged. -/
theorem flushSndbuf_outcome (s : Stream) :
    s.FlushOutcome (s.sndWnd - (congestionInFlight s).1) (tcpTxFlushSndbuf s) := by
  rcases flushSndbuf_cases s with ⟨-, hready⟩ |
    ⟨t, chunk, n, words, hready, hpeek, hunsent, hlen, hwnd, -, heq⟩
  · exact .steady _ hready.steady.1 hready.steady.2
  · rw [heq]
    have hsteady := hready.steady.1
    have hresent : s.Resent { t with out := s.out ++ [_] }
        { seq := s.sentSeq, ack := s.rx.recvAck, payload := chunk.take n, optLen := words } :=
      ⟨{ hsteady with out := rfl, bytes := ⟨chunk, n, hpeek, rfl⟩ }, hsteady.sentSeq,
        hsteady.sndbuf⟩
    have hn : (chunk.take n).length = n := length_take_of_le hlen
    have houtcome := sndbufSent_outcome hresent rfl hunsent (hn.trans_le hwnd)
      (s.sndUna = s.sentSeq)
    rw [hn] at houtcome
    exact houtcome

theorem Stream.FinAssigned.steady (h : s.FinAssigned t) (h' : t.Steady u) : s.FinAssigned u where
  toStill := h.toStill.trans h'.toStill
  due := h.due
  phase := h'.phase.trans h.phase

theorem Stream.Steady.finAssigned (h : s.Steady t) (h' : t.FinAssigned u) : s.FinAssigned u where
  toStill := by
    refine Stream.Still.trans ?_ h'.toStill
    exact ⟨h.sndUna, congrArg (· + 1) h.sentSeq, h.sndbuf, by simp only [h.phase, h.finDeferred],
      h.quiet⟩
  due := by
    have hdue := h'.due
    rw [h.phase, h.sentSeq, h.sndUna, h.sndbuf, h.finDeferred] at hdue
    exact hdue
  phase := h'.phase

/-- A fallible step behind the assignment of the FIN's sequence number. -/
theorem Stream.FinAssigned.move {result : Bool × Stream} (h : s.FinAssigned t)
    (h' : t.SteadyOrAborted result) : s.Move result.2 := by
  rcases h' with ⟨-, hsteady⟩ | ⟨-, haborted⟩
  · exact .finAssigned (h.steady hsteady)
  · exact .finAssignedDrained h haborted.toDrained

/-- The FIN of a close that waited for the data gets its place. -/
theorem flushDeferredFin_move (h : s.Steady t) (hready : finReady t = true) :
    s.Move (flushDeferredFin t).2 := by
  have henqueue := enqueueFragment_steady t true t.sentSeq
  rw [flushDeferredFin]
  cases hresult : tcpEnqueueFragment t true t.sentSeq with
  | mk queued u =>
    rw [hresult] at henqueue
    have hall := h.trans henqueue
    cases queued with
    | false =>
      exact .drained ((tcpAbortStream_aborted u (by decide) true).after hall.sentSeq
        hall.quiet).toDrained
    | true =>
      simp only [finReady, Bool.and_eq_true, Bool.or_eq_true, decide_eq_true_eq] at hready
      have hclosing : t.status.phase = .closing := by
        rcases hready.1.1 with (hstatus | hstatus) | hstatus <;> rw [hstatus] <;> rfl
      have hfin : t.FinAssigned { u with sentSeq := u.sentSeq + 1, finDeferred := false } :=
        ⟨⟨henqueue.sndUna, congrArg (· + 1) henqueue.sentSeq, henqueue.sndbuf,
          by simp [hclosing], henqueue.quiet⟩, .inr ⟨hclosing, hready.1.2, hready.2⟩,
          henqueue.phase.trans hclosing⟩
      exact (h.finAssigned hfin).move (armOrAbort_cases _ true)

theorem flushPayload_move (s : Stream) : s.Move (flushPayloadRound s).2 := by
  have hcases := flushSndbuf_outcome s
  rw [flushPayloadRound]
  generalize tcpTxFlushSndbuf s = result at hcases ⊢
  cases hcases with
  | sent seg h _ => exact .sent seg h
  | destroyed seg h _ h' => exact .sentDrained seg h h'.toDrained
  | @steady t result h _ =>
    cases result with
    | arpWait | retry | destroyed | sent => exact .steady h
    | idle =>
      simp only
      split_ifs with hpending hready
      · have henqueue := h.trans (enqueueFragment_steady t false t.sentSeq)
        generalize tcpEnqueueFragment t false t.sentSeq = result at henqueue ⊢
        obtain ⟨queued, u⟩ := result
        cases queued with
        | false => exact .steady henqueue
        | true => exact .steady (henqueue.trans (.of_eq rfl rfl rfl rfl rfl rfl))
      · exact flushDeferredFin_move h hready
      · exact .steady h

/-- A payload round flushes; an idle one may go on to queue an ACK or the deferred FIN. -/
theorem flushPayload_cases (s : Stream) :
    let t := (tcpTxFlushSndbuf s).2
    let u := (tcpEnqueueFragment t false t.sentSeq).2
    (flushPayloadRound s).2 = t ∨ (flushPayloadRound s).2 = u ∨
      (flushPayloadRound s).2 = { u with ackPending := false } ∨
      (flushPayloadRound s).2 = (flushDeferredFin t).2 := by
  rw [flushPayloadRound]
  generalize tcpTxFlushSndbuf s = flushed
  obtain ⟨result, t⟩ := flushed
  cases result with
  | sent | retry | arpWait | destroyed => exact .inl rfl
  | idle =>
    dsimp only
    split_ifs
    · obtain ⟨_ | _, u⟩ := tcpEnqueueFragment t false t.sentSeq
      · exact .inr (.inl rfl)
      · exact .inr (.inr (.inl rfl))
    · exact .inr (.inr (.inr rfl))
    · exact .inl rfl

/-- What the three passes keep, a whole flush keeps. -/
theorem flush_invariant {P : Stream → Prop}
    (hcontrol : ∀ s : Stream, P s → P (tcpTxFlushControl s.txQueue s).2)
    (hrecovery : ∀ s, P s → P (flushRecoveryTurn s).2)
    (hpayload : ∀ s, P s → P (flushPayloadRound s).2) (rounds : Nat) (h : P s) :
    P (tcpTxFlush rounds s).2 := by
  have hround : ∀ s, P s → P (tcpTxFlushRound rounds s).2 := by
    intro s h
    have hnext := hcontrol s h
    rw [tcpTxFlushRound]
    generalize tcpTxFlushControl s.txQueue s = result at hnext ⊢
    obtain ⟨_ | result, t⟩ := result
    · have hrecovered := repeatUntil_invariant hrecovery rounds hnext
      dsimp only
      generalize repeatUntil flushRecoveryTurn rounds t = recovered at hrecovered ⊢
      obtain ⟨_ | recovered, u⟩ := recovered
      · exact hpayload u hrecovered
      · cases recovered with
        | arpWait | retry => exact hrecovered
        | idle | sent | destroyed => exact hpayload u hrecovered
    · exact hnext
  rw [tcpTxFlush]
  split_ifs
  · exact h
  · exact repeatUntil_invariant hround rounds h

theorem recvBlob_move (s : Stream) (rx : Rx) (blob : RxBlob) (len : Nat) :
    s.Move (recvBlob s rx blob len).2 := by
  simp only [recvBlob]
  generalize tcpOfoDrain _ = drained
  have hset : s.Steady { s with rx := drained } := .of_eq rfl rfl rfl rfl rfl rfl
  refine (hset.then (applyPeerEof_cases _)).go_on (P := s.Move) (fun t h => ?_)
    fun t h => .drained h.toDrained
  split_ifs <;> exact .steady (h.trans (.of_eq rfl rfl rfl rfl rfl rfl))

theorem tcpRecv_move (s : Stream) (len : Nat) : s.Move (tcpRecv s len).2 := by
  rw [tcpRecv]
  split_ifs
  · exact .steady (.refl s)
  · exact .steady (.refl s)
  all_goals
    cases nsockTcpRxCurrent s.rx with
    | mk current rx =>
      cases current with
      | none => exact .steady (.refl s)
      | some blob => exact recvBlob_move s rx blob len

theorem timeoutData_steady (s : Stream) : s.Steady (timeoutData s) :=
  .of_eq rfl (tcpSackEnterRecovery_sndUna _ _ _) rfl rfl rfl rfl

theorem tcpTimeout_move (s : Stream) {resend : Stream → Stream}
    (hresend : ∀ t : Stream, t.Steady (resend t)) : s.Move (tcpTimeout s resend) := by
  rw [tcpTimeout]
  split_ifs
  · exact .steady (.refl s)
  · exact .drained (tcpAbortStream_aborted s (by decide) true).toDrained
  · have hset : s.Steady { s with retries := s.retries + 1 } := .of_eq rfl rfl rfl rfl rfl rfl
    exact ((hset.trans (hresend _)).then (armOrAbort_cases _ true)).move

theorem timerExpired_move (s : Stream) : s.Move (timerExpired s) := by
  have hfin : ∀ t : Stream, t.Steady
      (if t.sndbuf.len > 0 then timeoutData t else (tcpEnqueueFragment t true t.sndUna).2) := by
    intro t
    split_ifs
    · exact timeoutData_steady t
    · exact enqueueFragment_steady _ _ _
  rw [timerExpired]
  split
  · exact .drained ⟨rfl, rfl, rfl, rfl, .of_eq rfl⟩
  · exact tcpTimeout_move s timeoutData_steady
  · exact tcpTimeout_move s timeoutData_steady
  · exact tcpTimeout_move s hfin
  · exact tcpTimeout_move s hfin
  · exact tcpTimeout_move s hfin
  · exact .steady (.refl s)

theorem Stream.FinWaits.steady (h : s.FinWaits t) (h' : t.Steady u) : s.FinWaits u where
  toStill := h.toStill.trans h'.toStill
  sending := h.sending
  unsent := h.unsent
  phase := h'.phase.trans h.phase

theorem Stream.Steady.finWaits (h : s.Steady t) (h' : t.FinWaits u) : s.FinWaits u where
  toStill := by
    refine Stream.Still.trans ?_ h'.toStill
    exact ⟨h.sndUna, h.sentSeq, h.sndbuf, rfl, h.quiet⟩
  sending := h.phase.symm.trans h'.sending
  unsent := by rw [← h.sentSeq, ← h.sndbuf]; exact h'.unsent
  phase := h'.phase

/-- A silent step that leaves the ledger alone can be put before any move. -/
theorem Stream.Move.after (h' : t.Move u) (h : s.Steady t) (hout : t.out = s.out) : s.Move u := by
  cases h' with
  | steady h' => exact .steady (h.trans h')
  | acked ack h' hphase hshort =>
    rw [h.phase, h.sentSeq] at hshort
    exact .acked ack (h.toStill.acked h') (hphase.trans h.phase) hshort
  | finAcked hclosing h' hphase =>
    rw [h.sentSeq] at h'
    exact .finAcked (h.phase.symm.trans hclosing) (h.toStill.acked h') hphase
  | drained h' => exact .drained (h'.after h.sentSeq h.quiet)
  | resent seg h' =>
    exact .resent seg ⟨h.emitted h'.toEmitted hout, h'.sentSeq.trans h.sentSeq,
      h'.sndbuf.trans h.sndbuf⟩
  | sent seg h' => exact .sent seg (h.sent hout h')
  | sentDrained seg h' hdrained => exact .sentDrained seg (h.sent hout h') hdrained
  | finWaits h' => exact .finWaits (h.finWaits h')
  | finAssigned h' => exact .finAssigned (h.finAssigned h')
  | finAssignedDrained h' hdrained => exact .finAssignedDrained (h.finAssigned h') hdrained

/-- The timer callback, whatever the timer was for. -/
theorem tcpTimerCb_move (s : Stream) (now : Nat) : s.Move (tcpTimerCb s now) := by
  have hset : s.Steady { s with timerArmed := false } := .of_eq rfl rfl rfl rfl rfl rfl
  rw [tcpTimerCb]
  split_ifs
  · exact .drained ((tcpAbortStream_aborted _ (by decide) true).after hset.sentSeq
      hset.quiet).toDrained
  · exact (timerExpired_move _).after hset rfl

theorem closeTimers_cases (s : Stream) : s.SteadyOrAborted (closeTimers s) := by
  rw [closeTimers]
  split_ifs
  · exact armOrAbort_cases s true
  · exact .inl ⟨rfl, .refl s⟩

theorem closeSending_move {next : Status} (hsending : s.status.phase = .sending)
    (hnext : next.phase = .closing) : s.Move (closeSending s next) := by
  have hlast : ∀ t : Stream, t.Steady (if next = .lastAck then tcpDrainRecv t else t) := by
    intro t
    split_ifs
    · exact .of_eq rfl rfl rfl rfl rfl rfl
    · exact .refl t
  cases hunsent : Serial.lt s.sentSeq (s.sndbuf.headSeq + BitVec.ofNat 32 s.sndbuf.len) with
  | true =>
    have hwaits : s.FinWaits { s with finDeferred := true, retries := 0, status := next } :=
      ⟨⟨rfl, rfl, rfl, rfl, .of_eq rfl⟩, hsending, hunsent, hnext⟩
    rw [closeSending, closeFin, if_pos hunsent]
    exact (closeTimers_cases _).go_on (P := s.Move)
      (fun t h => .finWaits ((hwaits.steady h).steady (hlast t)))
      fun t h => .drained (h.after (s := s) hwaits.sentSeq hwaits.quiet).toDrained
  | false =>
    have henqueue := enqueueFragment_steady s true s.sentSeq
    rw [closeSending, closeFin, if_neg (by rw [hunsent]; exact Bool.false_ne_true)]
    generalize tcpEnqueueFragment s true s.sentSeq = result at henqueue ⊢
    obtain ⟨queued, t⟩ := result
    cases queued with
    | false =>
      exact .drained ((tcpAbortStream_aborted t (by decide) true).after henqueue.sentSeq
        henqueue.quiet).toDrained
    | true =>
      have hdeferred : t.finDeferred = s.finDeferred := henqueue.finDeferred
      have hfin : s.FinAssigned
          { t with sentSeq := t.sentSeq + 1, retries := 0, status := next } :=
        ⟨⟨henqueue.sndUna, congrArg (· + 1) henqueue.sentSeq, henqueue.sndbuf,
          by simp [hsending, hdeferred], henqueue.quiet⟩, .inl ⟨hsending, hunsent⟩, hnext⟩
      exact (closeTimers_cases _).go_on (P := s.Move)
        (fun u h => .finAssigned ((hfin.steady h).steady (hlast u)))
        fun u h => .finAssignedDrained hfin h.toDrained

theorem closeLinger_steady (s : Stream) : s.Steady (closeLinger s) ∧ (closeLinger s).out = s.out := by
  simp only [closeLinger]
  split_ifs
  · exact ⟨.of_eq rfl rfl rfl rfl rfl rfl, rfl⟩
  · exact ⟨.refl s, rfl⟩

theorem closeOrderly_move (hopen : s.status.phase ≠ .opening) : s.Move (closeOrderly s) := by
  rw [closeOrderly]
  split
  next hstatus => exact closeSending_move (by rw [hstatus]; rfl) rfl
  next hstatus => exact absurd (by rw [hstatus]; rfl) hopen
  next hstatus => exact closeSending_move (by rw [hstatus]; rfl) rfl
  next => exact .steady (.refl s)

/-- `tcp_close` of a stream that has been open. -/
theorem tcpClose_move (hopen : s.status.phase ≠ .opening) : s.Move (tcpClose s) := by
  have hset : s.Steady { s with appClosed := true } := .of_eq rfl rfl rfl rfl rfl rfl
  obtain ⟨hlinger, hout⟩ := closeLinger_steady { s with appClosed := true }
  simp only [tcpClose]
  split
  · exact .drained ⟨rfl, rfl, rfl, rfl, .of_eq rfl⟩
  · exact .drained ⟨rfl, rfl, rfl, rfl, .of_eq rfl⟩
  · exact .steady (.of_eq rfl rfl rfl rfl rfl rfl)
  · split_ifs
    · exact .drained ((tcpAbortStream_aborted _ (by decide) true).after hset.sentSeq
        hset.quiet).toDrained
    · rw [← hset.phase, ← hlinger.phase] at hopen
      exact (closeOrderly_move hopen).after (hset.trans hlinger) hout

/-- `tcp_send` appended `data` to the send buffer. -/
structure Stream.Appended (s t : Stream) (data : List UInt8) : Prop where
  sending : s.status.phase = .sending
  phase : t.status.phase = .sending
  sndUna : t.sndUna = s.sndUna
  sentSeq : t.sentSeq = s.sentSeq
  finDeferred : t.finDeferred = s.finDeferred
  out : t.out = s.out
  ok : t.sndbuf.Ok
  bytes : t.sndbuf.bytes = s.sndbuf.bytes ++ data
  headSeq : t.sndbuf.headSeq = s.sndbuf.headSeq
  unacked : t.sndbuf.unacked = s.sndbuf.unacked
  fits : s.sndbuf.len + data.length ≤ tcpSndbufSize

theorem Stream.Steady.appended {data : List UInt8} (h : s.Steady t) (hout : t.out = s.out)
    (h' : t.Appended u data) : s.Appended u data where
  sending := h.phase.symm.trans h'.sending
  phase := h'.phase
  sndUna := h'.sndUna.trans h.sndUna
  sentSeq := h'.sentSeq.trans h.sentSeq
  finDeferred := h'.finDeferred.trans h.finDeferred
  out := h'.out.trans hout
  ok := h'.ok
  bytes := by rw [h'.bytes, h.sndbuf]
  headSeq := by rw [h'.headSeq, h.sndbuf]
  unacked := by rw [h'.unacked, h.sndbuf]
  fits := by rw [← h.sndbuf]; exact h'.fits

/-- The bytes a call of `tcp_send` accepted. -/
def sendAccepted (result : Except Nat Nat) (data : List UInt8) : List UInt8 :=
  match result with
  | .ok n => data.take n
  | .error _ => []

/-- `tcp_send` appends the bytes that it reports, or changes nothing. -/
theorem tcpSend_cases (hok : s.sndbuf.Ok) (data : List UInt8) :
    (sendAccepted (tcpSend s data).1 data = [] ∧ (tcpSend s data).2 = s) ∨
      s.Appended (tcpSend s data).2 (sendAccepted (tcpSend s data).1 data) := by
  by_cases hdata : data = []
  · exact .inl (by rw [tcpSend, if_pos hdata]; exact ⟨rfl, rfl⟩)
  by_cases hstatus : s.status ≠ .established ∧ s.status ≠ .closeWait
  · exact .inl (by rw [tcpSend, if_neg hdata, if_pos hstatus]; exact ⟨rfl, rfl⟩)
  by_cases hfull : tcpAppSndSpace s = 0
  · have hsend : tcpSend s data = (.error eagain, s) := by
      simp only [tcpSend, if_neg hdata, if_neg hstatus, if_pos hfull]
    exact .inl (by rw [hsend]; exact ⟨rfl, rfl⟩)
  obtain ⟨n, hn, sb, env, heq, hok', hbytes, hhead, hunacked⟩ :=
    tcpSndbufAppend_spec hok s.env (data.take (tcpAppSndSpace s))
  have hsend : tcpSend s data =
      (if n = 0 then .error enobufs else .ok n, { s with sndbuf := sb, env := env }) := by
    simp only [tcpSend, if_neg hdata, if_neg hstatus, if_neg hfull, heq]
    split_ifs <;> rfl
  have haccepted : sendAccepted (if n = 0 then .error enobufs else .ok n) data = data.take n := by
    split_ifs with hzero
    · rw [hzero]
      rfl
    · rfl
  have hsending : s.status.phase = .sending := by
    rcases not_and_or.mp hstatus with hstatus | hstatus <;> rw [not_not.mp hstatus] <;> rfl
  rw [length_take, tcpAppSndSpace] at hn
  rw [take_take, min_eq_left (by rw [tcpAppSndSpace]; omega)] at hbytes
  rw [hsend, haccepted]
  refine .inr ⟨hsending, hsending, rfl, rfl, rfl, rfl, hok', hbytes, hhead, hunacked, ?_⟩
  rw [tcpAppSndSpace] at hfull
  rw [length_take]
  split_ifs at hn hfull with hwindow
  · rw [Bool.and_eq_true, decide_eq_true_eq] at hwindow
    omega
  · omega

end SnowTG.Tcp
