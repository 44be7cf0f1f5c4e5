import SnowTG.Tcp.SenderSafety

/-!
# The peer's window and the timer

Few functions of `tcp.c` touch the window advertised by the peer, the timer, the
state of a stream or what it has in flight.  Every other one leaves all four
alone; the ones that arm the timer leave the window alone and either keep the
state or end the connection.  So no call but the handler of ESTABLISHED changes
the window, and every call keeps the timer running while something is in flight.
-/

namespace SnowTG.Tcp

open SnowTG.Lib

/-- The window fields of a stream: the usable window, the segment it came from, whether one came
at all, and the scale of the connection. -/
structure SendWindow where
  wnd : Nat
  wl1 : Seq
  wl2 : Seq
  valid : Bool
  scale : Nat
  deriving DecidableEq, Repr

/-- The window of the peer as the stream knows it. -/
def Stream.window (s : Stream) : SendWindow :=
  { wnd := s.sndWnd, wl1 := s.sndWl1, wl2 := s.sndWl2, valid := s.sndWndValid, scale := s.sndWscale }

/-- What needs upkeep while a connection sends: the window, the timer, the state and what is in
flight. -/
structure Upkeep where
  window : SendWindow
  timerArmed : Bool
  status : Status
  sndUna : Seq
  sentSeq : Seq
  deriving DecidableEq, Repr

def Stream.upkeep (s : Stream) : Upkeep :=
  { window := s.window, timerArmed := s.timerArmed, status := s.status
    sndUna := s.sndUna, sentSeq := s.sentSeq }

variable {s t u : Stream} {seg : Segment}

theorem Stream.window_of_upkeep (h : t.upkeep = s.upkeep) : t.window = s.window :=
  congrArg Upkeep.window h

theorem Stream.status_of_upkeep (h : t.upkeep = s.upkeep) : t.status = s.status :=
  congrArg Upkeep.status h

section Frames

variable (s : Stream)

/-- A scoreboard that acknowledges no more is none of the four. -/
theorem Stream.upkeep_scoreboard {tp : Scoreboard} (h : tp.sndUna = s.sndUna) :
    Stream.upkeep { s with toScoreboard := tp } = s.upkeep :=
  congrArg (Upkeep.mk s.window s.timerArmed s.status · s.sentSeq) h

@[simp] theorem drainRecv_upkeep : (tcpDrainRecv s).upkeep = s.upkeep := rfl

@[simp] theorem timeoutData_upkeep : (timeoutData s).upkeep = s.upkeep :=
  Stream.upkeep_scoreboard s (tcpSackEnterRecovery_sndUna _ _ _)

@[simp] theorem txEnqueue_upkeep (f : Fragment) : (nsockTcpTxEnqueue s f).2.upkeep = s.upkeep := by
  simp only [nsockTcpTxEnqueue]
  split_ifs <;> rfl

@[simp] theorem enqueueFragment_upkeep (fin : Bool) (seq : Seq) :
    (tcpEnqueueFragment s fin seq).2.upkeep = s.upkeep := by
  simp only [tcpEnqueueFragment]
  split_ifs
  · rfl
  · exact txEnqueue_upkeep _ _

theorem Stream.Prepared.upkeep (h : s.Prepared t) : t.upkeep = s.upkeep := by
  obtain ⟨tp, dsack, recent, huna, -, rfl⟩ := h
  exact s.upkeep_scoreboard huna

theorem emit_upkeep (seg : WireSeg) : (tcpEmit s seg).2.upkeep = s.upkeep := by
  rcases tcpEmit_cases s seg with ⟨t, hasked, hemit⟩ | ⟨t, hasked, hemit⟩ <;> rw [hemit]
  · exact hasked.upkeep
  · exact hasked.upkeep

theorem flushRecovery_upkeep : (flushRecoveryTurn s).2.upkeep = s.upkeep := by
  have hscheduled := (recoverySchedule_prepared s).upkeep
  rcases flushRecoveryTurn_cases s with heq | ⟨candidate, heq⟩ <;> rw [heq]
  · exact hscheduled
  · rcases recoveryRetransmit_cases (recoverySchedule s) candidate with
      hidle | ⟨t, chunk, n, words, hready, -, -, hsent⟩
    · exact hidle.upkeep.trans hscheduled
    · rw [hsent]
      exact hready.upkeep.trans hscheduled

theorem requeueControl_upkeep (f : Fragment) (rest : List Fragment) (result : TxFlush) :
    (requeueControl s f rest result).2.upkeep = s.upkeep := by
  simp only [requeueControl]
  split_ifs <;> rfl

theorem flushControl_upkeep (queue : List Fragment) :
    (tcpTxFlushControl queue s).2.upkeep = s.upkeep := by
  induction queue generalizing s with
  | nil => rfl
  | cons f rest ih =>
    simp only [tcpTxFlushControl]
    split_ifs
    · exact requeueControl_upkeep _ _ _ _
    · exact (ih _).trans (emit_upkeep s.ask.2 _)
    · exact (requeueControl_upkeep _ _ _ _).trans (emit_upkeep s.ask.2 _)

theorem send_upkeep (data : List UInt8) : (tcpSend s data).2.upkeep = s.upkeep := by
  simp only [tcpSend]
  split_ifs <;> rfl

@[simp] theorem closeLinger_upkeep : (closeLinger s).upkeep = s.upkeep := by
  simp only [closeLinger]
  split_ifs <;> rfl

end Frames

/-- Arming the timer: the window stays, and the timer runs or the connection is over. -/
structure Stream.Armed (s t : Stream) : Prop where
  window : t.window = s.window
  timer : (t.timerArmed = true ∧ t.status = s.status) ∨ t.status = .closed

theorem Stream.Armed.after {u : Stream} (h : t.Armed u) (hwindow : t.window = s.window)
    (hstatus : t.status = s.status) : s.Armed u := by
  refine ⟨h.window.trans hwindow, ?_⟩
  rw [← hstatus]
  exact h.timer

theorem abortStream_armed (s : Stream) (error : Nat) (sendReset : Bool) :
    s.Armed (tcpAbortStream s error sendReset) := by
  simp only [tcpAbortStream, tcpTrySendAbortReset]
  split_ifs <;> exact ⟨rfl, Or.inr rfl⟩

theorem armOrAbort_armed (s : Stream) (sendReset : Bool) : s.Armed (armOrAbort s sendReset).2 := by
  simp only [armOrAbort, tcpArmTimer]
  split_ifs
  · exact (abortStream_armed s.ask.2 enobufs sendReset).after rfl rfl
  · exact ⟨rfl, Or.inl ⟨rfl, rfl⟩⟩

/-- Something in flight means that the timer runs. -/
def Stream.Guarded (s : Stream) : Prop :=
  s.status.sendsPayload = true → s.sndUna ≠ s.sentSeq → s.timerArmed = true

/-- The window is untouched, ESTABLISHED is not entered, and the timer goes on running while
something is in flight. -/
structure Stream.Upkept (s t : Stream) : Prop where
  window : t.window = s.window
  established : t.status = .established → s.status = .established
  guarded : s.Guarded → t.Guarded

namespace Stream.Upkept

theorem refl (s : Stream) : s.Upkept s := ⟨rfl, id, id⟩

theorem trans (h : s.Upkept t) (h' : t.Upkept u) : s.Upkept u :=
  ⟨h'.window.trans h.window, h.established ∘ h'.established, h'.guarded ∘ h.guarded⟩

theorem of_upkeep (h : t.upkeep = s.upkeep) : s.Upkept t := by
  have hstatus := status_of_upkeep h
  refine ⟨window_of_upkeep h, fun ht => hstatus.symm.trans ht, fun hs hsends hflight => ?_⟩
  have huna : t.sndUna = s.sndUna := congrArg Upkeep.sndUna h
  have hsent : t.sentSeq = s.sentSeq := congrArg Upkeep.sentSeq h
  exact (congrArg Upkeep.timerArmed h).trans (hs (hstatus ▸ hsends) (huna ▸ hsent ▸ hflight))

/-- Whatever was in flight before, a stream whose timer was armed or that was aborted is guarded. -/
theorem of_armed (h : t.Armed u) (hwindow : t.window = s.window)
    (hstatus : t.status = .established → s.status = .established) : s.Upkept u := by
  refine ⟨h.window.trans hwindow, fun hu => ?_, fun _ hsends _ => ?_⟩
  · rcases h.timer with ⟨-, hsame⟩ | hclosed
    · exact hstatus (hsame.symm.trans hu)
    · exact absurd (hclosed.symm.trans hu) (by decide)
  · rcases h.timer with ⟨harmed, -⟩ | hclosed
    · exact harmed
    · rw [hclosed] at hsends
      exact absurd hsends (by decide)

/-- A state that sends nothing more is entered. -/
theorem of_status (status : Status) (hwindow : t.window = s.window) (hstatus : t.status = status)
    (hsilent : status.sendsPayload = false) : s.Upkept t := by
  subst hstatus
  refine ⟨hwindow, fun ht => ?_, fun _ hsends => absurd (hsilent.symm.trans hsends) (by decide)⟩
  rw [ht] at hsilent
  exact absurd hsilent (by decide)

theorem unlessAborted {result : Bool × Stream} {next : Stream → Stream}
    (h : s.Upkept result.2) (hnext : ∀ t : Stream, t.Upkept (next t)) :
    s.Upkept (unlessAborted result next) := by
  rw [Tcp.unlessAborted]
  split_ifs
  · exact h.trans (hnext _)
  · exact h

end Stream.Upkept

section Frames

variable (s : Stream)

theorem enterTimeWait_upkept : s.Upkept (tcpEnterTimeWait s).2 :=
  .of_armed (armOrAbort_armed _ false) rfl (by simp)

/-- The stream goes on sending in the state it enters, so its timer must have run before. -/
theorem applyPeerEof_upkept : s.Upkept (tcpApplyPeerEof s).2 := by
  rw [tcpApplyPeerEof]
  split
  · exact .refl s
  · split
    · next hstatus => exact ⟨rfl, by simp, fun h _ hflight => h (by rw [hstatus]; rfl) hflight⟩
    · next hstatus => exact ⟨rfl, by simp, fun h _ hflight => h (by rw [hstatus]; rfl) hflight⟩
    · exact enterTimeWait_upkept s
    · exact .refl s

theorem receiveStreamSegment_upkept (seg : Segment) :
    s.Upkept (tcpReceiveStreamSegment s seg).2 := by
  have hrange : s.Upkept (tcpReceiveStreamRange s seg.seq seg.payload seg.fin).2 := by
    simp only [tcpReceiveStreamRange]
    split_ifs
    · have hset : s.Upkept
          { s with rx := tcpReceiveRange s.rx s.status seg.seq seg.payload seg.fin } :=
        .of_upkeep rfl
      exact hset.trans (applyPeerEof_upkept _)
    · exact .of_upkeep rfl
  simp only [tcpReceiveStreamSegment]
  generalize tcpReceiveStreamRange s seg.seq seg.payload seg.fin = received at hrange ⊢
  split
  · exact .refl s
  · split
    · exact .refl s
    · obtain ⟨_ | _, t⟩ := received
      · exact hrange
      · simp only
        split
        · exact hrange.trans (.of_upkeep rfl)
        · exact hrange.trans (.of_upkeep (enqueueFragment_upkeep _ _ _))

/-- The timer part of an acknowledgement re-establishes the duty on progress, and keeps it
otherwise. -/
theorem ackTimer_upkept {progressed : Bool} (hwindow : t.window = s.window)
    (hstatus : t.status = s.status) (hguarded : progressed = false → s.Guarded → t.Guarded) :
    s.Upkept (ackTimer t progressed).2 := by
  simp only [ackTimer]
  split
  · next hdone =>
      simp only [Bool.and_eq_true, decide_eq_true_eq] at hdone
      exact ⟨hwindow, hstatus.symm.trans, fun _ _ hflight => absurd hdone.2 hflight⟩
  · split
    · exact .of_armed (armOrAbort_armed _ true) hwindow hstatus.symm.trans
    · next hprogress => exact ⟨hwindow, hstatus.symm.trans, hguarded (by simpa using hprogress)⟩

theorem ackAccept_upkept (ack : Seq) (sacks : List SackBlock) (classicDup : Bool) :
    s.Upkept (ackAccept s ack sacks classicDup).2 := by
  have hretire : (ackRetire s ack).window = s.window ∧ (ackRetire s ack).status = s.status := by
    rw [ackRetire]
    split_ifs <;> exact ⟨rfl, rfl⟩
  simp only [ackAccept]
  refine ackTimer_upkept s hretire.1 hretire.2 fun hprogress h hsends hflight => ?_
  obtain rfl : ack = s.sndUna := by simpa using hprogress
  have hsame : ackRetire s s.sndUna = s := if_pos rfl
  simp only [hsame, ackScoreboard_sndUna] at hsends hflight ⊢
  exact h hsends hflight

/-- An ACK leaves the timer armed while data are in flight. -/
theorem processPeerAck_upkept (seg : Segment) : s.Upkept (tcpProcessPeerAck s seg).2 := by
  simp only [tcpProcessPeerAck, tcpProcessPeerAckEx, Bool.false_eq_true, if_false]
  split_ifs
  · exact .refl s
  · exact ackAccept_upkept s _ _ _

theorem stateAckThenData_upkept (seg : Segment) : s.Upkept (tcpStateAckThenData s seg) := by
  rw [tcpStateAckThenData]
  split_ifs
  · exact (processPeerAck_upkept s seg).unlessAborted fun t => receiveStreamSegment_upkept t seg
  · exact receiveStreamSegment_upkept s seg

theorem stateFinal_upkept (final : Stream → Stream) (hfinal : ∀ t : Stream, t.Upkept (final t))
    (seg : Segment) : s.Upkept (tcpStateFinal final s seg) := by
  refine (receiveStreamSegment_upkept s seg).unlessAborted fun t => ?_
  split_ifs
  · exact .refl t
  · refine (processPeerAck_upkept t seg).unlessAborted fun u => ?_
    split_ifs
    · exact .refl u
    · exact hfinal u

theorem stateFinWait1_upkept (seg : Segment) : s.Upkept (tcpStateFinWait1 s seg) := by
  rw [tcpStateFinWait1]
  split_ifs
  · refine (processPeerAck_upkept s seg).unlessAborted fun t => ?_
    split_ifs
    · have hset : t.Upkept (tcpEnterFinWait2 t).2 :=
        .of_armed (armOrAbort_armed _ true) rfl (by simp)
      exact hset.unlessAborted fun u => receiveStreamSegment_upkept u seg
    · exact receiveStreamSegment_upkept t seg
  · exact receiveStreamSegment_upkept s seg

/-- New data arms the timer of an idle stream; that of any other stream runs already. -/
theorem flushSndbuf_upkept : s.Upkept (tcpTxFlushSndbuf s).2 := by
  rcases flushSndbuf_cases s with
    ⟨-, hidle⟩ | ⟨t, chunk, n, words, hready, -, -, -, -, -, hsent⟩
  · exact .of_upkeep hidle.upkeep
  · rw [hsent]
    obtain ⟨tp, dsack, recent, huna, -, rfl⟩ := hready
    simp only [sndbufSent]
    split
    · exact .of_armed (armOrAbort_armed _ true) rfl id
    · next hidle => exact ⟨rfl, id, fun h hsends _ => h hsends (by simpa using hidle)⟩

theorem flushDeferredFin_upkept : s.Upkept (flushDeferredFin s).2 := by
  have henqueue := enqueueFragment_upkeep s true s.sentSeq
  rw [flushDeferredFin]
  generalize tcpEnqueueFragment s true s.sentSeq = enqueued at henqueue ⊢
  have hwindow := Stream.window_of_upkeep henqueue
  have hstatus := (Stream.status_of_upkeep henqueue).symm
  obtain ⟨_ | _, t⟩ := enqueued
  · exact .of_armed (abortStream_armed t enobufs true) hwindow hstatus.trans
  · exact .of_armed (armOrAbort_armed _ true) hwindow hstatus.trans

theorem flushPayload_upkept : s.Upkept (flushPayloadRound s).2 := by
  have hflush := flushSndbuf_upkept s
  have henqueue := enqueueFragment_upkeep (tcpTxFlushSndbuf s).2 false (tcpTxFlushSndbuf s).2.sentSeq
  rcases flushPayload_cases s with heq | heq | heq | heq <;> rw [heq]
  · exact hflush
  · exact hflush.trans (.of_upkeep henqueue)
  · exact hflush.trans (.of_upkeep henqueue)
  · exact hflush.trans (flushDeferredFin_upkept _)

theorem recv_upkept (len : Nat) : s.Upkept (tcpRecv s len).2 := by
  simp only [tcpRecv]
  split
  · exact .refl s
  · split
    · exact .refl s
    · cases nsockTcpRxCurrent s.rx with
      | mk current rx =>
        cases current with
        | none => exact .refl s
        | some blob =>
          simp only [recvBlob]
          generalize tcpOfoDrain _ = drained
          have hset : s.Upkept { s with rx := drained } := .of_upkeep rfl
          refine (hset.trans (applyPeerEof_upkept _)).unlessAborted fun t => ?_
          split_ifs <;> exact .of_upkeep rfl

/-- Once the FIN is placed, the timer is armed if anything is in flight. -/
theorem closeTimers_upkept (hwindow : t.window = s.window) (hother : t.status ≠ .established) :
    s.Upkept (closeTimers t).2 := by
  rw [closeTimers]
  split
  · exact .of_armed (armOrAbort_armed t true) hwindow fun ht => absurd ht hother
  · next hidle =>
      exact ⟨hwindow, fun ht => absurd ht hother, fun _ _ hflight => absurd (.inl hflight) hidle⟩

theorem closeSending_upkept {next : Status} (hnext : next ≠ .established) :
    s.Upkept (closeSending s next) := by
  have hfin : (closeFin s).2.window = s.window ∧ (closeFin s).2.status = s.status := by
    have henqueue := enqueueFragment_upkeep s true s.sentSeq
    have hsame := And.intro (Stream.window_of_upkeep henqueue) (Stream.status_of_upkeep henqueue)
    rw [closeFin]
    generalize tcpEnqueueFragment s true s.sentSeq = enqueued at hsame ⊢
    split_ifs
    · exact ⟨rfl, rfl⟩
    · obtain ⟨_ | _, t⟩ := enqueued <;> exact hsame
  rw [closeSending]
  generalize closeFin s = placed at hfin ⊢
  obtain ⟨_ | _, t⟩ := placed
  · exact .of_armed (abortStream_armed t enobufs true) hfin.1 hfin.2.symm.trans
  · have htimers : s.Upkept (closeTimers { t with retries := 0, status := next }).2 :=
      closeTimers_upkept s hfin.1 hnext
    refine htimers.unlessAborted fun u => ?_
    split_ifs
    · exact .of_upkeep (drainRecv_upkeep u)
    · exact .refl u

theorem close_upkept : s.Upkept (tcpClose s) := by
  have horderly : ∀ t : Stream, t.Upkept (closeOrderly t) := by
    intro t
    rw [closeOrderly]
    split
    · exact closeSending_upkept t (by decide)
    · exact closeSending_upkept t (by decide)
    · exact closeSending_upkept t (by decide)
    · exact .refl t
  simp only [tcpClose]
  split
  · exact .of_status .closed rfl rfl rfl
  · exact .of_status .closed rfl rfl rfl
  · exact .of_upkeep rfl
  · split
    · exact .of_armed (abortStream_armed _ econnreset true) rfl id
    · refine Stream.Upkept.trans (.of_upkeep ?_) (horderly _)
      exact closeLinger_upkeep _

/-- The callback consumed the timer; with something in flight it arms it again or gives up. -/
theorem timeout_upkept {resend : Stream → Stream} (hwindow : t.window = s.window)
    (hstatus : t.status = s.status) (hresend : ∀ u : Stream, (resend u).upkeep = u.upkeep) :
    s.Upkept (tcpTimeout t resend) := by
  rw [tcpTimeout]
  split_ifs with hidle
  · exact ⟨hwindow, hstatus.symm.trans, fun _ _ hflight => absurd hidle hflight⟩
  · exact .of_armed (abortStream_armed t etimedout true) hwindow hstatus.symm.trans
  · have hsame := hresend { t with retries := t.retries + 1 }
    exact .of_armed (armOrAbort_armed _ true) ((Stream.window_of_upkeep hsame).trans hwindow)
      ((Stream.status_of_upkeep hsame).trans hstatus).symm.trans

theorem timerCb_upkept (now : Nat) : s.Upkept (tcpTimerCb s now) := by
  have hfin : ∀ t : Stream, (if t.sndbuf.len > 0 then timeoutData t
      else (tcpEnqueueFragment t true t.sndUna).2).upkeep = t.upkeep := by
    intro t
    split_ifs
    · exact timeoutData_upkeep t
    · exact enqueueFragment_upkeep t true t.sndUna
  simp only [tcpTimerCb]
  split
  · exact .of_armed (abortStream_armed _ etimedout true) rfl id
  · rw [timerExpired]
    split
    · exact .of_status .closed rfl rfl rfl
    · exact timeout_upkept s rfl rfl timeoutData_upkeep
    · exact timeout_upkept s rfl rfl timeoutData_upkeep
    · exact timeout_upkept s rfl rfl hfin
    · exact timeout_upkept s rfl rfl hfin
    · exact timeout_upkept s rfl rfl hfin
    · refine .of_status s.status rfl rfl ?_
      cases hstatus : s.status <;> simp_all [Status.sendsPayload]

end Frames

/-- The segment acknowledges something between `snd_una` and `sent_seq`. -/
def Stream.acceptsAck (s : Stream) (seg : Segment) : Bool :=
  seg.ack && !(Serial.lt seg.ackNum s.sndUna || Serial.gt seg.ackNum s.sentSeq)

/-- `tcp_ingress` passes the segment on to the handler of the state: it is no reset, and the
timestamp check does not drop it. -/
def Stream.handles (s : Stream) (seg : Segment) : Bool :=
  s.status ≠ .closed && !seg.rst && s.ask.1 ≠ 1 &&
    (s.ask.1 = 0 ||
      !(s.status = .established && tcpSegmentAcceptable s.rx seg.seq seg.payload.length seg.fin &&
        !Serial.lt seg.seq s.rx.recvAck))

/-- ESTABLISHED takes over the window of an acceptable acknowledgement. -/
def Stream.takeWindow (s : Stream) (seg : Segment) : Stream :=
  if s.acceptsAck seg then tcpUpdateSndWndLocal s seg.seq seg.ackNum seg.window s.sndWscale else s

theorem stateEstablished_window (s : Stream) (seg : Segment) :
    (s.takeWindow seg).Upkept (tcpStateEstablished s seg) := by
  rw [Stream.takeWindow, Stream.acceptsAck]
  simp only [tcpStateEstablished]
  cases hack : seg.ack with
  | false => exact receiveStreamSegment_upkept s seg
  | true =>
    simp only [Bool.true_and, if_true]
    refine Stream.Upkept.unlessAborted ?_ fun t => receiveStreamSegment_upkept t seg
    simp only [tcpProcessPeerAckEx, if_true]
    generalize (Serial.lt seg.ackNum s.sndUna || Serial.gt seg.ackNum s.sentSeq) = ignored
    cases ignored with
    | true => exact .refl s
    | false => exact ackAccept_upkept _ _ _ _

/-- Outside ESTABLISHED no handler takes over a window. -/
theorem stateHandle_upkept (hstatus : s.status ≠ .established) (seg : Segment) :
    s.Upkept (tcpStateHandle s seg) := by
  rw [tcpStateHandle]
  split
  · next hestablished => exact absurd hestablished hstatus
  · exact stateAckThenData_upkept s seg
  · exact stateFinal_upkept s tcpLastAckDone
      (fun t => .of_status .closed rfl rfl rfl) seg
  · exact receiveStreamSegment_upkept s seg
  · exact stateFinal_upkept s _ enterTimeWait_upkept seg
  · exact stateFinWait1_upkept s seg
  · exact stateAckThenData_upkept s seg
  · exact .refl s
  · exact .refl s
  · exact .refl s
  · exact .refl s

theorem tcpIngress_of_handles (h : s.handles seg = true) :
    tcpIngress s seg = tcpStateHandle s.ask.2 seg := by
  simp only [Stream.handles, ne_eq, Bool.and_eq_true, decide_eq_true_eq, Bool.not_eq_true',
    decide_not, Bool.or_eq_true] at h
  obtain ⟨⟨⟨hopen, hrst⟩, hmissing⟩, hstale⟩ := h
  simp only [decide_eq_false_iff_not] at hopen hmissing
  simp only [tcpIngress, if_neg hopen, hrst, Bool.false_eq_true, if_false, if_neg hmissing]
  split
  · rfl
  · next hverdict =>
      have hpass := hstale.resolve_left hverdict
      rw [if_neg]
      intro hdrop
      exact Bool.false_ne_true (hpass.symm.trans hdrop)

theorem tcpIngress_of_not_handles (h : s.handles seg = false) :
    s.Upkept (tcpIngress s seg) := by
  simp only [tcpIngress]
  split
  · exact .refl s
  · next hopen =>
    split
    · split
      · exact .of_armed (abortStream_armed s econnreset false) rfl id
      · exact .refl s
    · next hrst =>
      split
      · next hverdict =>
          simp [Stream.handles, hopen, hrst, hverdict] at h
      · next hverdict =>
        split
        · exact .of_upkeep rfl
        · next hmissing =>
          split
          · refine Stream.Upkept.trans ?_ (.of_upkeep (enqueueFragment_upkeep _ _ _))
            exact .of_upkeep rfl
          · next hkeep =>
              rw [Bool.not_eq_true] at hrst hkeep
              have hstale : (decide (s.status = .established) &&
                  tcpSegmentAcceptable s.rx seg.seq seg.payload.length seg.fin &&
                  !Serial.lt seg.seq s.rx.recvAck) = false := hkeep
              simp [Stream.handles, hopen, hrst, hverdict, hmissing, hstale] at h

theorem stateHandle_established (h : s.status = .established) :
    tcpStateHandle s seg = tcpStateEstablished s seg := by
  rw [tcpStateHandle]
  split
  · rfl
  all_goals next hother => exact absurd (h.symm.trans hother) (by decide)

/-- Every call but the arrival of a segment. -/
theorem apply_upkept (s : Stream) (call : SenderCall) (hcall : ∀ seg, call ≠ .segment seg) :
    s.Upkept (call.apply s).1 := by
  cases call with
  | send data => exact .of_upkeep (send_upkeep s data)
  | close => exact close_upkept s
  | recv len => exact recv_upkept s len
  | flushControl => exact .of_upkeep (flushControl_upkeep s s.txQueue)
  | flushRecovery => exact .of_upkeep (flushRecovery_upkeep s)
  | flushPayload => exact flushPayload_upkept s
  | segment seg => exact absurd rfl (hcall seg)
  | timer now => exact timerCb_upkept s now

end SnowTG.Tcp
