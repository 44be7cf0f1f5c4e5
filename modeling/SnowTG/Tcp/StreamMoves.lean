import SnowTG.Tcp.StreamFrame

/-!
# What moves the sender

The steps that do move the sender's sequence numbers or its buffer: an
acknowledgement retires bytes, the application appends some, a flush puts new
bytes or old ones on the wire, and the FIN takes a sequence number of its own.
Each function is described by the moves it can make.
-/

namespace SnowTG.Tcp

open SnowTG.Lib

variable {s t u : Stream} {ack : Seq}

/-- An acknowledgement in range retired the bytes it covers. -/
structure Stream.Acked (s t : Stream) (ack : Seq) : Prop extends
    Stream.Still { s with sndUna := ack, sndbuf := (ackRetire s ack).sndbuf } t where
  low : Serial.lt ack s.sndUna = false
  high : Serial.gt ack s.sentSeq = false

theorem Stream.Acked.still (h : s.Acked t ack) (h' : t.Still u) : s.Acked u ack where
  toStill := h.toStill.trans h'
  low := h.low
  high := h.high

theorem Stream.Still.acked (h : s.Still t) (h' : t.Acked u ack) : s.Acked u ack where
  toStill := by
    refine Stream.Still.trans ?_ h'.toStill
    refine ⟨rfl, h.sentSeq, ?_, h.finDeferred, h.quiet⟩
    dsimp only
    rw [ackRetire, ackRetire, h.sndUna, h.sndbuf]
    split_ifs
    · exact h.sndbuf
    · rfl
  low := by rw [← h.sndUna]; exact h'.low
  high := by rw [← h.sentSeq]; exact h'.high

/-- What processing an acknowledgement number does: nothing when it is out of range. -/
inductive Stream.AckOutcome (s : Stream) (ack : Seq) : Bool × Stream → Prop where
  | ignored (hrange : Serial.lt ack s.sndUna = true ∨ Serial.gt ack s.sentSeq = true) :
      s.AckOutcome ack (true, s)
  | acked {t : Stream} (h : s.Acked t ack) (hphase : t.status.phase = s.status.phase) :
      s.AckOutcome ack (true, t)
  | aborted {t : Stream} (h : s.Aborted t) : s.AckOutcome ack (false, t)

theorem ackTimer_cases (s : Stream) (progressed : Bool) :
    s.SteadyOrAborted (ackTimer s progressed) := by
  simp only [ackTimer]
  split_ifs
  · exact .inl ⟨rfl, .of_eq rfl rfl rfl rfl rfl rfl⟩
  · have hset : s.Steady { s with retries := 0 } := .of_eq rfl rfl rfl rfl rfl rfl
    exact hset.then (armOrAbort_cases _ true)
  · exact .inl ⟨rfl, .refl s⟩

theorem updateSndWnd_steady (s : Stream) (segSeq segAck : Seq) (segWnd : BitVec 16) (scale : Nat) :
    s.Steady (tcpUpdateSndWndLocal s segSeq segAck segWnd scale) := by
  rw [tcpUpdateSndWndLocal]
  split_ifs
  · exact .of_eq rfl rfl rfl rfl rfl rfl
  · exact .refl s

theorem ackRetire_acked (hlow : Serial.lt ack s.sndUna = false)
    (hhigh : Serial.gt ack s.sentSeq = false) :
    s.Acked (ackRetire s ack) ack ∧ (ackRetire s ack).status.phase = s.status.phase := by
  rw [ackRetire]
  split_ifs with heq
  · exact ⟨⟨⟨heq.symm, rfl, by rw [ackRetire, if_pos heq], rfl, .of_eq rfl⟩, hlow, hhigh⟩, rfl⟩
  · exact ⟨⟨⟨rfl, rfl, by rw [ackRetire, if_neg heq], rfl, .of_eq rfl⟩, hlow, hhigh⟩, rfl⟩

theorem ackTimer_outcome (h : s.Acked t ack) (hphase : t.status.phase = s.status.phase)
    (progressed : Bool) : s.AckOutcome ack (ackTimer t progressed) := by
  have hcases := ackTimer_cases t progressed
  cases hresult : ackTimer t progressed with
  | mk ok next =>
    rw [hresult] at hcases
    rcases hcases with ⟨hok, hsteady⟩ | ⟨hok, haborted⟩
    · obtain rfl : ok = true := hok
      exact .acked (h.still hsteady.toStill) (hsteady.phase.trans hphase)
    · obtain rfl : ok = false := hok
      exact .aborted (haborted.after h.sentSeq h.quiet)

theorem ackAccept_outcome (hlow : Serial.lt ack s.sndUna = false)
    (hhigh : Serial.gt ack s.sentSeq = false) (h : s.Steady t) (sacks : List SackBlock)
    (classicDup : Bool) : s.AckOutcome ack (ackAccept t ack sacks classicDup) := by
  rw [← h.sndUna] at hlow
  rw [← h.sentSeq] at hhigh
  obtain ⟨hacked, hphase⟩ := ackRetire_acked hlow hhigh
  rw [ackAccept]
  refine ackTimer_outcome (h.toStill.acked (hacked.still ?_)) ?_ _
  · exact ⟨ackScoreboard_sndUna _ _ _ _ _ _ _ _, rfl, rfl, rfl, .of_eq rfl⟩
  · exact hphase.trans h.phase

theorem processPeerAckEx_cases (s : Stream) (ack : Seq) (sacks : List SackBlock)
    (classicDup applyWindow : Bool) (segSeq : Seq) (segWnd : BitVec 16) (scale : Nat) :
    s.AckOutcome ack
      (tcpProcessPeerAckEx s ack sacks classicDup applyWindow segSeq segWnd scale) := by
  rw [tcpProcessPeerAckEx]
  split_ifs with hrange happly
  · exact .ignored (by simpa using hrange)
  all_goals
    rw [Bool.not_eq_true, Bool.or_eq_false_iff] at hrange
  · exact ackAccept_outcome hrange.1 hrange.2 (updateSndWnd_steady s segSeq ack segWnd scale) _ _
  · exact ackAccept_outcome hrange.1 hrange.2 (.refl s) _ _

/-- What an incoming segment does to the sender.  Only the acknowledgement of `sent_seq` ends the
closing phase. -/
inductive Stream.SegmentOutcome (s : Stream) (seg : Segment) (t : Stream) : Prop where
  | steady (h : s.Steady t)
  | acked (h : s.Acked t seg.ackNum) (hphase : t.status.phase = s.status.phase)
      (hshort : s.status.phase = .closing → seg.ackNum ≠ s.sentSeq)
  | finAcked (hclosing : s.status.phase = .closing) (hack : seg.ack = true)
      (hlast : seg.ackNum = s.sentSeq) (h : s.Acked t seg.ackNum)
      (hphase : t.status.phase = .acked)
  | finished (hclosing : s.status.phase = .closing) (hack : seg.ack = true)
      (hlast : seg.ackNum = s.sentSeq) (h : s.Drained t)
  | aborted (h : s.Aborted t)

variable {seg : Segment}

theorem Stream.Steady.segmentOutcome (h : s.Steady t) (h' : t.SegmentOutcome seg u) :
    s.SegmentOutcome seg u := by
  cases h' with
  | steady h' => exact .steady (h.trans h')
  | acked h' hphase hshort =>
    rw [h.phase, h.sentSeq] at hshort
    exact .acked (h.toStill.acked h') (hphase.trans h.phase) hshort
  | finAcked hclosing hack hlast h' hphase =>
    rw [h.phase] at hclosing
    rw [h.sentSeq] at hlast
    exact .finAcked hclosing hack hlast (h.toStill.acked h') hphase
  | finished hclosing hack hlast h' =>
    rw [h.phase] at hclosing
    rw [h.sentSeq] at hlast
    exact .finished hclosing hack hlast (h'.after h.sentSeq h.quiet)
  | aborted h' => exact .aborted (h'.after h.sentSeq h.quiet)

/-- The receive path at the end of a handler either keeps what the handler did or aborts. -/
theorem receive_outcome (hsent : t.sentSeq = s.sentSeq) (hquiet : s.Quiet t)
    (hnext : ∀ u, t.Steady u → s.SegmentOutcome seg u) :
    s.SegmentOutcome seg (tcpReceiveStreamSegment t seg).2 := by
  rcases receiveStreamSegment_cases t seg with ⟨-, hsteady⟩ | ⟨-, haborted⟩
  · exact hnext _ hsteady
  · exact .aborted (haborted.after hsent hquiet)

theorem receive_steady_outcome (h : s.Steady t) :
    s.SegmentOutcome seg (tcpReceiveStreamSegment t seg).2 :=
  receive_outcome h.sentSeq h.quiet fun _ hnext => .steady (h.trans hnext)

theorem receive_acked_outcome (h : s.Acked t seg.ackNum) (hphase : t.status.phase = s.status.phase)
    (hshort : s.status.phase = .closing → seg.ackNum ≠ s.sentSeq) :
    s.SegmentOutcome seg (tcpReceiveStreamSegment t seg).2 :=
  receive_outcome h.sentSeq h.quiet fun _ hnext =>
    .acked (h.still hnext.toStill) (hnext.phase.trans hphase) hshort

/-- The handlers of the states that do not wait for the acknowledgement of the FIN. -/
theorem ackThenData_outcome (hopen : s.status.phase ≠ .closing) {result : Bool × Stream}
    (hresult : s.AckOutcome seg.ackNum result) :
    s.SegmentOutcome seg (unlessAborted result fun s => (tcpReceiveStreamSegment s seg).2) := by
  cases hresult with
  | ignored => exact receive_steady_outcome (.refl s)
  | acked h hphase => exact receive_acked_outcome h hphase fun hclosing => absurd hclosing hopen
  | aborted h => exact .aborted h

theorem tcpStateEstablished_outcome (hopen : s.status.phase ≠ .closing) :
    s.SegmentOutcome seg (tcpStateEstablished s seg) := by
  rw [tcpStateEstablished]
  split_ifs
  · exact ackThenData_outcome hopen (processPeerAckEx_cases s _ _ _ _ _ _ _)
  · exact receive_steady_outcome (.refl s)

theorem tcpStateAckThenData_outcome (hopen : s.status.phase ≠ .closing) :
    s.SegmentOutcome seg (tcpStateAckThenData s seg) := by
  rw [tcpStateAckThenData]
  split_ifs
  · exact ackThenData_outcome hopen (processPeerAckEx_cases s _ _ _ _ _ _ _)
  · exact receive_steady_outcome (.refl s)

theorem enterFinWait2_cases (s : Stream) :
    { s with status := .finWait2 }.SteadyOrAborted (tcpEnterFinWait2 s) := by
  simp only [tcpEnterFinWait2]
  refine Stream.Steady.then ?_ (armOrAbort_cases _ true)
  exact .of_eq rfl rfl rfl rfl rfl rfl

variable (hclosing : s.status.phase = .closing) (horder : Serial.lt s.sentSeq s.sndUna = false)
include horder

/-- Out of range is not `sent_seq`, once the sequence numbers are in order. -/
theorem ne_sentSeq_of_ignored
    (hrange : Serial.lt ack s.sndUna = true ∨ Serial.gt ack s.sentSeq = true) :
    ack ≠ s.sentSeq := by
  rintro rfl
  rcases hrange with hlow | hhigh
  · cases horder.symm.trans hlow
  · simp [Serial.gt] at hhigh

include hclosing in
theorem tcpStateFinWait1_outcome : s.SegmentOutcome seg (tcpStateFinWait1 s seg) := by
  rw [tcpStateFinWait1]
  split_ifs with hack
  · have hcases : s.AckOutcome seg.ackNum (tcpProcessPeerAck s seg) :=
      processPeerAckEx_cases s _ _ _ _ _ _ _
    generalize tcpProcessPeerAck s seg = result at hcases ⊢
    cases hcases with
    | ignored hrange =>
      rw [unlessAborted_true, if_neg (ne_sentSeq_of_ignored horder hrange)]
      exact receive_steady_outcome (.refl s)
    | @acked t h hphase =>
      rw [unlessAborted_true, h.sentSeq]
      split_ifs with hlast
      · refine (enterFinWait2_cases t).go_on (P := s.SegmentOutcome seg) (fun u hsteady => ?_)
          fun u haborted => .aborted (haborted.after h.sentSeq h.quiet)
        have hset : t.Still { t with status := .finWait2 } := ⟨rfl, rfl, rfl, rfl, .of_eq rfl⟩
        have hacked := (h.still hset).still hsteady.toStill
        exact receive_outcome hacked.sentSeq hacked.quiet fun v hnext =>
          .finAcked hclosing hack hlast (hacked.still hnext.toStill)
            (hnext.phase.trans hsteady.phase)
      · exact receive_acked_outcome h hphase fun _ => hlast
    | aborted h => exact .aborted h
  · exact receive_steady_outcome (.refl s)

/-- LAST_ACK and CLOSING, given what follows the acknowledgement of `sent_seq`. -/
theorem tcpStateFinal_outcome {final : Stream → Stream}
    (hfinal : ∀ t, seg.ack = true → seg.ackNum = s.sentSeq → s.Acked t seg.ackNum →
      s.SegmentOutcome seg (final t)) :
    s.SegmentOutcome seg (tcpStateFinal final s seg) := by
  rw [tcpStateFinal]
  refine (receiveStreamSegment_cases s seg).go_on (P := s.SegmentOutcome seg) (fun t hsteady => ?_)
    fun t haborted => .aborted haborted
  cases hack : seg.ack with
  | false => exact .steady hsteady
  | true =>
    rw [Bool.not_true, if_neg Bool.false_ne_true]
    have hcases : t.AckOutcome seg.ackNum (tcpProcessPeerAck t seg) :=
      processPeerAckEx_cases t _ _ _ _ _ _ _
    generalize tcpProcessPeerAck t seg = result at hcases ⊢
    cases hcases with
    | ignored hrange =>
      rw [← hsteady.sndUna, ← hsteady.sentSeq] at horder
      rw [unlessAborted_true, if_pos (ne_sentSeq_of_ignored horder hrange)]
      exact .steady hsteady
    | @acked u h hphase =>
      have hacked := hsteady.toStill.acked h
      rw [unlessAborted_true, hacked.sentSeq]
      split_ifs with hlast
      · exact .acked hacked (hphase.trans hsteady.phase) fun _ => hlast
      · exact hfinal u hack (not_not.mp hlast) hacked
    | aborted h => exact .aborted (h.after hsteady.sentSeq hsteady.quiet)

omit horder in
theorem tcpLastAckDone_drained (s : Stream) : s.Drained (tcpLastAckDone s) :=
  ⟨rfl, rfl, rfl, rfl, .of_eq rfl⟩

include hclosing in
theorem tcpStateLastAck_outcome : s.SegmentOutcome seg (tcpStateLastAck s seg) :=
  tcpStateFinal_outcome horder fun t hack hlast h =>
    .finished hclosing hack hlast ((tcpLastAckDone_drained t).after h.sentSeq h.quiet)

include hclosing in
theorem tcpStateClosing_outcome : s.SegmentOutcome seg (tcpStateClosing s seg) := by
  refine tcpStateFinal_outcome horder fun t hack hlast h => ?_
  have hset : t.Still { t with status := .timeWait } := ⟨rfl, rfl, rfl, rfl, .of_eq rfl⟩
  rcases enterTimeWait_cases t with ⟨-, hsteady⟩ | ⟨-, haborted⟩
  · exact .finAcked hclosing hack hlast ((h.still hset).still hsteady.toStill) hsteady.phase
  · exact .aborted (haborted.after h.sentSeq h.quiet)

theorem tcpStateHandle_outcome : s.SegmentOutcome seg (tcpStateHandle s seg) := by
  rw [tcpStateHandle]
  cases hstatus : s.status with
  | established => exact tcpStateEstablished_outcome (by simp [hstatus, Status.phase])
  | closeWait | finWait2 => exact tcpStateAckThenData_outcome (by simp [hstatus, Status.phase])
  | finWait1 => exact tcpStateFinWait1_outcome (by simp [hstatus, Status.phase]) horder
  | closing => exact tcpStateClosing_outcome (by simp [hstatus, Status.phase]) horder
  | lastAck => exact tcpStateLastAck_outcome (by simp [hstatus, Status.phase]) horder
  | timeWait => exact receive_steady_outcome (.refl s)
  | closed | listen | synSent | synRecv => exact .steady (.refl s)

theorem tcpIngress_outcome : s.SegmentOutcome seg (tcpIngress s seg) := by
  have hask := ask_steady s
  have hhandle : s.SegmentOutcome seg (tcpStateHandle s.ask.2 seg) :=
    hask.segmentOutcome (tcpStateHandle_outcome horder)
  simp only [tcpIngress]
  split_ifs
  · exact .steady (.refl s)
  · exact .aborted (tcpAbortStream_aborted s (by decide) false)
  · exact .steady (.refl s)
  · exact hhandle
  · exact .steady hask
  · refine .steady (hask.trans (Stream.Steady.trans ?_ (enqueueFragment_steady _ _ _)))
    exact .of_eq rfl rfl rfl rfl rfl rfl
  · exact hhandle

end SnowTG.Tcp
