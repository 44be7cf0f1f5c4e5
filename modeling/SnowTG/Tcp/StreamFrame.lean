import SnowTG.Tcp.Scoreboard
import SnowTG.Tcp.Transmit

/-!
# What the stream functions leave alone

Most functions of `tcp.c` neither move the sender's sequence numbers nor touch
its buffer nor put payload on the wire; the others change them in one of a few
ways.  Each function is sorted here once, so that invariants of the sender need
no further look at its body.
-/

namespace SnowTG.Tcp

open SnowTG.Lib

/-- How far the sending direction has come. -/
inductive Phase where
  | opening
  | sending
  | closing
  | acked
  | gone
  deriving DecidableEq, Repr

/-- The phase of a state: before the handshake is over, open, waiting for the acknowledgement of the
FIN, past it, or without a connection. -/
def Status.phase : Status → Phase
  | .listen | .synSent | .synRecv => .opening
  | .established | .closeWait => .sending
  | .finWait1 | .closing | .lastAck => .closing
  | .finWait2 | .timeWait => .acked
  | .closed => .gone

variable {s t u : Stream} {result : Bool × Stream}

/-- The log grew by segments without payload only. -/
def Stream.Quiet (s t : Stream) : Prop :=
  ∃ segs : List WireSeg, t.out = s.out ++ segs ∧ ∀ seg ∈ segs, seg.payload = []

theorem Stream.Quiet.of_eq (h : t.out = s.out) : s.Quiet t := ⟨[], by simp [h], by simp⟩

theorem Stream.Quiet.trans (h : s.Quiet t) (h' : t.Quiet u) : s.Quiet u := by
  obtain ⟨segs, hout, hquiet⟩ := h
  obtain ⟨segs', hout', hquiet'⟩ := h'
  refine ⟨segs ++ segs', by rw [hout', hout, List.append_assoc], fun seg hseg => ?_⟩
  rcases List.mem_append.mp hseg with hseg | hseg
  · exact hquiet seg hseg
  · exact hquiet' seg hseg

/-- The sender's sequence numbers and buffer are untouched. -/
structure Stream.Still (s t : Stream) : Prop where
  sndUna : t.sndUna = s.sndUna
  sentSeq : t.sentSeq = s.sentSeq
  sndbuf : t.sndbuf = s.sndbuf
  finDeferred : t.finDeferred = s.finDeferred
  quiet : s.Quiet t

theorem Stream.Still.trans (h : s.Still t) (h' : t.Still u) : s.Still u where
  sndUna := h'.sndUna.trans h.sndUna
  sentSeq := h'.sentSeq.trans h.sentSeq
  sndbuf := h'.sndbuf.trans h.sndbuf
  finDeferred := h'.finDeferred.trans h.finDeferred
  quiet := h.quiet.trans h'.quiet

/-- Neither the ledger nor the phase moves. -/
structure Stream.Steady (s t : Stream) : Prop extends s.Still t where
  phase : t.status.phase = s.status.phase

theorem Stream.Steady.trans (h : s.Steady t) (h' : t.Steady u) : s.Steady u where
  toStill := h.toStill.trans h'.toStill
  phase := h'.phase.trans h.phase

/-- A step that leaves all the ledger reads as it was. -/
theorem Stream.Steady.of_eq (hstatus : t.status = s.status) (huna : t.sndUna = s.sndUna)
    (hsent : t.sentSeq = s.sentSeq) (hsndbuf : t.sndbuf = s.sndbuf)
    (hfin : t.finDeferred = s.finDeferred) (hout : t.out = s.out) : s.Steady t :=
  ⟨⟨huna, hsent, hsndbuf, hfin, .of_eq hout⟩, congrArg Status.phase hstatus⟩

theorem Stream.Steady.refl (s : Stream) : s.Steady s := .of_eq rfl rfl rfl rfl rfl rfl

/-- The connection is over: the send side is empty at `sent_seq`. -/
structure Stream.Drained (s t : Stream) : Prop where
  status : t.status = .closed
  sndUna : t.sndUna = s.sentSeq
  sentSeq : t.sentSeq = s.sentSeq
  sndbuf : t.sndbuf = tcpSndbufInit s.sentSeq
  quiet : s.Quiet t

theorem Stream.Drained.after (h : t.Drained u) (hsent : t.sentSeq = s.sentSeq)
    (hquiet : s.Quiet t) : s.Drained u where
  status := h.status
  sndUna := h.sndUna.trans hsent
  sentSeq := h.sentSeq.trans hsent
  sndbuf := h.sndbuf.trans (by rw [hsent])
  quiet := hquiet.trans h.quiet

/-- Drained with an error for the application. -/
structure Stream.Aborted (s t : Stream) : Prop extends s.Drained t where
  error : t.terminalError ≠ 0

theorem Stream.Aborted.after (h : t.Aborted u) (hsent : t.sentSeq = s.sentSeq)
    (hquiet : s.Quiet t) : s.Aborted u :=
  ⟨h.toDrained.after hsent hquiet, h.error⟩

/-- A fallible step: it leaves the ledger alone, or it aborts the stream and says so. -/
def Stream.SteadyOrAborted (s : Stream) (result : Bool × Stream) : Prop :=
  (result.1 = true ∧ s.Steady result.2) ∨ (result.1 = false ∧ s.Aborted result.2)

theorem Stream.Steady.then (h : s.Steady t) (h' : t.SteadyOrAborted result) :
    s.SteadyOrAborted result := by
  rcases h' with ⟨hok, hsteady⟩ | ⟨hok, haborted⟩
  · exact .inl ⟨hok, h.trans hsteady⟩
  · exact .inr ⟨hok, haborted.after h.sentSeq h.quiet⟩

theorem ask_steady (s : Stream) : s.Steady s.ask.2 := .of_eq rfl rfl rfl rfl rfl rfl

theorem armTimer_steady (s : Stream) : s.Steady (tcpArmTimer s).2 := by
  simp only [tcpArmTimer]
  split_ifs
  · exact ask_steady s
  · exact .of_eq rfl rfl rfl rfl rfl rfl

theorem tcpAbortStream_aborted (s : Stream) {error : Nat} (herror : error ≠ 0) (sendReset : Bool) :
    s.Aborted (tcpAbortStream s error sendReset) := by
  simp only [tcpAbortStream, tcpTrySendAbortReset]
  split_ifs
  · exact ⟨⟨rfl, rfl, rfl, rfl, .of_eq rfl⟩, herror⟩
  · exact ⟨⟨rfl, rfl, rfl, rfl, ⟨_, rfl, by simp⟩⟩, herror⟩
  · exact ⟨⟨rfl, rfl, rfl, rfl, .of_eq rfl⟩, herror⟩

theorem optionsApply_steady (s : Stream) : s.Steady (tcpOptionsApplyEstablished s).2 :=
  .of_eq rfl rfl rfl rfl rfl rfl

theorem txEnqueue_steady (s : Stream) (f : Fragment) : s.Steady (nsockTcpTxEnqueue s f).2 := by
  simp only [nsockTcpTxEnqueue]
  split_ifs
  · exact .refl s
  · exact .of_eq rfl rfl rfl rfl rfl rfl

theorem enqueueFragment_steady (s : Stream) (fin : Bool) (seq : Seq) :
    s.Steady (tcpEnqueueFragment s fin seq).2 := by
  simp only [tcpEnqueueFragment]
  split_ifs
  · exact ask_steady s
  · exact ((ask_steady s).trans (optionsApply_steady _)).trans (txEnqueue_steady _ _)

theorem armOrAbort_cases (s : Stream) (sendReset : Bool) :
    s.SteadyOrAborted (armOrAbort s sendReset) := by
  have harm := armTimer_steady s
  rw [armOrAbort]
  cases hresult : tcpArmTimer s with
  | mk armed next =>
    rw [hresult] at harm
    cases armed with
    | true => exact .inl ⟨rfl, harm⟩
    | false =>
      exact .inr ⟨rfl,
        (tcpAbortStream_aborted next (by decide) sendReset).after harm.sentSeq harm.quiet⟩

@[simp] theorem unlessAborted_true (s : Stream) (next : Stream → Stream) :
    unlessAborted (true, s) next = next s := rfl

/-- What holds of every aborted stream, and of what is done with any other, holds behind
`unlessAborted`. -/
theorem Stream.SteadyOrAborted.go_on {next : Stream → Stream} {P : Stream → Prop}
    (h : s.SteadyOrAborted result) (hgo : ∀ t, s.Steady t → P (next t))
    (habort : ∀ t, s.Aborted t → P t) : P (unlessAborted result next) := by
  obtain ⟨ok, t⟩ := result
  rcases h with ⟨hok, hsteady⟩ | ⟨hok, haborted⟩
  · obtain rfl : ok = true := hok
    exact hgo t hsteady
  · obtain rfl : ok = false := hok
    exact habort t haborted

theorem enterTimeWait_cases (s : Stream) :
    { s with status := .timeWait }.SteadyOrAborted (tcpEnterTimeWait s) := by
  have hset : { s with status := .timeWait }.Steady
      { s with status := .timeWait, retries := 0, closeDeadline := 0 } :=
    .of_eq rfl rfl rfl rfl rfl rfl
  exact hset.then (armOrAbort_cases _ false)

theorem applyPeerEof_cases (s : Stream) : s.SteadyOrAborted (tcpApplyPeerEof s) := by
  rw [tcpApplyPeerEof]
  split_ifs
  · exact .inl ⟨rfl, .refl s⟩
  · cases hstatus : s.status with
    | established | finWait1 =>
      exact .inl ⟨rfl, ⟨rfl, rfl, rfl, rfl, .of_eq rfl⟩, by rw [hstatus]; rfl⟩
    | finWait2 =>
      have hset : s.Steady { s with status := .timeWait } :=
        ⟨⟨rfl, rfl, rfl, rfl, .of_eq rfl⟩, by rw [hstatus]; rfl⟩
      exact hset.then (enterTimeWait_cases s)
    | closed | listen | synSent | synRecv | closeWait | lastAck | timeWait | closing =>
      exact .inl ⟨rfl, .refl s⟩

theorem receiveStreamRange_cases (s : Stream) (seq : Seq) (payload : List UInt8) (hasFin : Bool) :
    s.SteadyOrAborted (tcpReceiveStreamRange s seq payload hasFin) := by
  have hset : s.Steady { s with rx := tcpReceiveRange s.rx s.status seq payload hasFin } :=
    .of_eq rfl rfl rfl rfl rfl rfl
  simp only [tcpReceiveStreamRange]
  split_ifs
  · exact hset.then (applyPeerEof_cases _)
  · exact .inl ⟨rfl, hset⟩

theorem receiveStreamSegment_cases (s : Stream) (seg : Segment) :
    s.SteadyOrAborted (tcpReceiveStreamSegment s seg) := by
  simp only [tcpReceiveStreamSegment]
  split_ifs
  · exact .inl ⟨rfl, .refl s⟩
  · exact .inl ⟨rfl, .refl s⟩
  · have hcases := receiveStreamRange_cases s seg.seq seg.payload seg.fin
    generalize tcpReceiveStreamRange s seg.seq seg.payload seg.fin = result at hcases ⊢
    obtain ⟨ok, t⟩ := result
    rcases hcases with ⟨hok, hsteady⟩ | ⟨hok, haborted⟩
    · obtain rfl : ok = true := hok
      simp only
      split_ifs
      · exact .inl ⟨rfl, hsteady.trans (.of_eq rfl rfl rfl rfl rfl rfl)⟩
      · have hnoted : t.Steady { t with
            tsNoted := t.tsNoted || t.rx.recvAck ≠ s.rx.recvAck } := .of_eq rfl rfl rfl rfl rfl rfl
        have hqueued := hnoted.trans (enqueueFragment_steady _ false t.sentSeq)
        exact .inl ⟨rfl, hsteady.trans hqueued⟩
    · obtain rfl : ok = false := hok
      exact .inr ⟨rfl, haborted⟩

section Scoreboard

variable (tp : Scoreboard)

theorem sackInsertBlock_sndUna (flightEnd : Seq) (block : SackBlock) (newly : BitVec 32) :
    (sackInsertBlock flightEnd block tp newly).2.sndUna = tp.sndUna := by
  rw [sackInsertBlock]
  cases sackClipBlock tp.sndUna flightEnd block with
  | none => rfl
  | some clipped =>
    obtain ⟨env, count, hframe⟩ := rangeInsert_frame tp tp.sacked clipped.left clipped.right
    simp only [hframe]
    split_ifs <;> rfl

@[simp] theorem tcpSackUpdate_sndUna (packetAck : Seq) (blocks : List SackBlock)
    (flightEnd : Seq) : (tcpSackUpdate tp packetAck blocks flightEnd).2.sndUna = tp.sndUna := by
  simp only [tcpSackUpdate]
  split_ifs
  · simp
  · have hloop : (sackInsertBlocks flightEnd (sackNewBlocks packetAck blocks)
        (tcpSackTrim tp flightEnd) 0).2.sndUna = tp.sndUna :=
      tryEach_invariant (P := fun t => t.sndUna = tp.sndUna)
        (fun block t newly h => (sackInsertBlock_sndUna t flightEnd block newly).trans h) _
        (tcpSackTrim_sndUna tp flightEnd)
    generalize sackInsertBlocks flightEnd (sackNewBlocks packetAck blocks)
      (tcpSackTrim tp flightEnd) 0 = result at hloop ⊢
    obtain ⟨newly, t⟩ := result
    cases newly <;> simpa using hloop

@[simp] theorem candidateSet_sndUna (kind : RecoveryTxKind) (rule : Nat) (rescue : Bool)
    (seq stop : Seq) : (candidateSet tp kind rule rescue seq stop).2.sndUna = tp.sndUna := by
  simp only [candidateSet]
  split_ifs <;> rfl

@[simp] theorem tcpSackScheduleNext_sndUna (sndbufEnd : Seq) (allowNewData : Bool) :
    (tcpSackScheduleNext tp sndbufEnd allowNewData).2.sndUna = tp.sndUna := by
  simp only [tcpSackScheduleNext]
  repeat' split
  all_goals first | rfl | exact candidateSet_sndUna _ _ _ _ _ _

@[simp] theorem ackNewreno_sndUna (oldMode : RecoveryMode) (progressed : Bool)
    (ack flightEnd : Seq) : (ackNewreno tp oldMode progressed ack flightEnd).sndUna = tp.sndUna := by
  simp only [ackNewreno, tcpSackScheduleNewrenoPartial, tcpSackCancelCandidate]
  split_ifs <;> simp

@[simp] theorem ackEnterRecovery_sndUna (newInformation progressed classicDup : Bool)
    (flightEnd : Seq) :
    (ackEnterRecovery tp newInformation progressed classicDup flightEnd).2.sndUna = tp.sndUna := by
  simp only [ackEnterRecovery]
  split_ifs <;> simp [tcpSackSetPipe, tcpSackEnterRecovery_sndUna]

@[simp] theorem ackSchedule_sndUna (newInformation progressed : Bool) (flightEnd sndbufEnd : Seq) :
    (ackSchedule tp newInformation progressed flightEnd sndbufEnd).sndUna = tp.sndUna := by
  simp only [ackSchedule]
  split_ifs <;> simp [tcpSackSetPipe]

@[simp] theorem ackScoreboard_sndUna (oldMode : RecoveryMode) (progressed classicDup : Bool)
    (ack : Seq) (sacks : List SackBlock) (flightEnd sndbufEnd : Seq) :
    (ackScoreboard tp oldMode progressed classicDup ack sacks flightEnd sndbufEnd).2.sndUna =
      tp.sndUna := by
  simp only [ackScoreboard, ackSchedule_sndUna, ackEnterRecovery_sndUna]
  split_ifs <;> simp

end Scoreboard

end SnowTG.Tcp
