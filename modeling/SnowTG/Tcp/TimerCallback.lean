import SnowTG.Tcp.TransmitMoves

/-!
# The timer callback in every state

`tcp_timer_cb` with the two states of the handshake.  There it makes the SYN or
the SYN+ACK again; the options are written into the fragment by
`tcp_options_apply_syn`, which takes for granted that there is one.
-/

namespace SnowTG.Tcp

/-- `TCP_SYN_MAX_RETRIES`. -/
def tcpSynMaxRetries : Nat := 5

/-- A fragment is used that was not allocated. -/
inductive Fault where
  | absentFragment
  deriving DecidableEq, Repr

/-- `tcp_make_fragment` of a SYN or a SYN+ACK; its window is not scaled. -/
def tcpMakeSynFragment (s : Stream) (acks : Bool) : Option Fragment × Stream :=
  let (made, s) := s.ask
  if made = 0 then (none, s)
  else
    (some
      { seq := s.sentSeq
        ack := if acks then s.rx.recvAck else 0
        fin := false
        rxWin := min (tcpRcvWnd s.rx) (2 ^ 16 - 1)
        syn := true
        acks := acks },
      s)

/-- `tcp_options_apply_syn`, which starts by clearing the option bytes of the fragment. -/
def tcpOptionsApplySyn : Option Fragment → Except Fault Unit
  | some _ => .ok ()
  | none => .error .absentFragment

/-- `tcp_enqueue_fragment` of what was made. -/
def enqueueMade (f : Option Fragment) (s : Stream) : Stream :=
  match f with
  | some f => (nsockTcpTxEnqueue s f).2
  | none => s

/-- `tcp_timer_cb` in `SYN_SENT`. -/
def timerSynSent (s : Stream) : Except Fault Stream :=
  if s.retries < tcpSynMaxRetries then
    let (f, s) := tcpMakeSynFragment { s with retries := s.retries + 1 } false
    -- The options are applied only to a fragment that is there.
    match if f.isSome then tcpOptionsApplySyn f else .ok () with
    | .error fault => .error fault
    | .ok () => .ok (armOrAbort (enqueueMade f s) false).2
  else
    let s := { tcpDrainSend { s with status := .closed } with terminalError := etimedout }
    .ok (if s.appClosed then { tcpDrainRecv s with freed := true } else s)

/-- `tcp_timer_cb` in `SYN_RECV`. -/
def timerSynRecv (s : Stream) : Except Fault Stream :=
  if s.retries < tcpSynMaxRetries then
    let (f, s) := tcpMakeSynFragment { s with retries := s.retries + 1 } true
    match tcpOptionsApplySyn f with
    | .error fault => .error fault
    | .ok () => .ok (armOrAbort (enqueueMade f s) false).2
  else .ok { tcpDrainSend (tcpDrainRecv s) with freed := true }

/-- What the timer does in any state, the close deadline aside. -/
def timerExpires (s : Stream) : Except Fault Stream :=
  if s.status = .synSent then timerSynSent s
  else if s.status = .synRecv then timerSynRecv s
  else .ok (timerExpired s)

/-- `tcp_timer_cb`. -/
def tcpTimerCallback (s : Stream) (now : Nat) : Except Fault Stream :=
  let s := { s with timerArmed := false }
  if s.closeDeadline ≠ 0 ∧ now ≥ s.closeDeadline then .ok (tcpAbortStream s etimedout true)
  else timerExpires s

/-- In the synchronized states nothing is made that could be absent. -/
theorem timerCallback_synchronized (s : Stream) (now : Nat)
    (h : s.status ≠ .synSent ∧ s.status ≠ .synRecv) :
    tcpTimerCallback s now = .ok (tcpTimerCb s now) := by
  rw [tcpTimerCallback, tcpTimerCb]
  dsimp only
  split_ifs
  · rfl
  · rw [timerExpires, if_neg h.1, if_neg h.2]

/-- The peer owes an acknowledgement: of the SYN, of the SYN+ACK, or of data or the FIN. -/
def Stream.Outstanding (s : Stream) : Prop :=
  s.status = .synSent ∨ s.status = .synRecv ∨
    s.status.sendsPayload = true ∧ s.sndUna ≠ s.sentSeq

/-- Retransmissions before the stream is given up. -/
def Stream.retryLimit (s : Stream) : Nat :=
  if s.status = .synSent ∨ s.status = .synRecv then tcpSynMaxRetries else tcpDataMaxRetries

/-- The stream was aborted because its timer could not be armed. -/
def Stream.Unarmed (s : Stream) : Prop := s.status = .closed ∧ s.terminalError = enobufs

/-- The callback has done its work on `s`: one retry more and the timer armed again, unless the
stream was aborted. -/
def Stream.Retried (s t : Stream) : Prop :=
  t.Unarmed ∨ t.retries = s.retries + 1 ∧ t.timerArmed = true

variable {s t : Stream}

theorem armOrAbort_retried (h : t.retries = s.retries + 1) (sendReset : Bool) :
    s.Retried (armOrAbort t sendReset).2 := by
  simp only [armOrAbort, tcpArmTimer]
  by_cases hanswer : t.ask.1 = 0
  · simp only [if_pos hanswer]
    refine .inl ⟨?_, rfl⟩
    simp only [tcpAbortStream]
    split_ifs <;> rfl
  · simp only [if_neg hanswer]
    exact .inr ⟨h, rfl⟩

theorem enqueueMade_retries (f : Option Fragment) (s : Stream) :
    (enqueueMade f s).retries = s.retries := by
  cases f with
  | none => rfl
  | some f =>
    simp only [enqueueMade, nsockTcpTxEnqueue]
    split_ifs <;> rfl

theorem enqueueFragment_retries (s : Stream) (fin : Bool) (seq : Seq) :
    (tcpEnqueueFragment s fin seq).2.retries = s.retries := by
  simp only [tcpEnqueueFragment, nsockTcpTxEnqueue]
  split_ifs <;> rfl

theorem makeSynFragment_retries (s : Stream) (acks : Bool) :
    (tcpMakeSynFragment s acks).2.retries = s.retries := by
  simp only [tcpMakeSynFragment]
  split_ifs <;> rfl

/-- Without a fragment the SYN is not sent again, but the timer goes on. -/
theorem timerSynSent_retried (h : s.retries < tcpSynMaxRetries) :
    ∃ t, timerSynSent s = .ok t ∧ s.Retried t := by
  have hretries := makeSynFragment_retries { s with retries := s.retries + 1 } false
  simp only [timerSynSent, if_pos h]
  generalize tcpMakeSynFragment { s with retries := s.retries + 1 } false = made at hretries ⊢
  obtain ⟨f, t⟩ := made
  have hready : (if f.isSome then tcpOptionsApplySyn f else .ok ()) = .ok () := by
    cases f <;> rfl
  dsimp only
  rw [hready]
  refine ⟨_, rfl, armOrAbort_retried ?_ false⟩
  rw [enqueueMade_retries]
  exact hretries

/-- The SYN+ACK is sent again exactly if a fragment can be allocated for it. -/
theorem timerSynRecv_retried_iff (h : s.retries < tcpSynMaxRetries) :
    (∃ t, timerSynRecv s = .ok t ∧ s.Retried t) ↔ s.env.ask.1 ≠ 0 := by
  have hretries := makeSynFragment_retries { s with retries := s.retries + 1 } true
  have hanswer : (tcpMakeSynFragment { s with retries := s.retries + 1 } true).1 = none ↔
      s.env.ask.1 = 0 := by
    simp only [tcpMakeSynFragment]
    split_ifs with hnone
    · exact ⟨fun _ => hnone, fun _ => rfl⟩
    · exact ⟨nofun, fun hzero => absurd hzero hnone⟩
  simp only [timerSynRecv, if_pos h]
  generalize tcpMakeSynFragment { s with retries := s.retries + 1 } true = made at hretries hanswer ⊢
  obtain ⟨f, t⟩ := made
  cases f with
  | none =>
    refine iff_of_false ?_ (not_not.mpr (hanswer.mp rfl))
    rintro ⟨t, hfault, -⟩
    simp only [tcpOptionsApplySyn, reduceCtorEq] at hfault
  | some f =>
    have hroom : s.env.ask.1 ≠ 0 := fun hzero =>
      Option.some_ne_none f (hanswer.mpr hzero)
    refine iff_of_true ⟨_, rfl, armOrAbort_retried ?_ false⟩ hroom
    rw [enqueueMade_retries]
    exact hretries

theorem tcpTimeout_retried {resend : Stream → Stream} (hflight : s.sndUna ≠ s.sentSeq)
    (h : s.retries < tcpDataMaxRetries) (hresend : ∀ t, (resend t).retries = t.retries) :
    s.Retried (tcpTimeout s resend) := by
  rw [tcpTimeout, if_neg hflight, if_neg (Nat.not_le.mpr h)]
  exact armOrAbort_retried (hresend _) true

theorem timerExpired_retried (hsends : s.status.sendsPayload = true) (hflight : s.sndUna ≠ s.sentSeq)
    (h : s.retries < tcpDataMaxRetries) : s.Retried (timerExpired s) := by
  have hdata : ∀ t, (timeoutData t).retries = t.retries := fun _ => rfl
  have hfin : ∀ t : Stream, (if t.sndbuf.len > 0 then timeoutData t
      else (tcpEnqueueFragment t true t.sndUna).2).retries = t.retries := by
    intro t
    split_ifs
    · exact hdata t
    · exact enqueueFragment_retries t true t.sndUna
  rw [timerExpired]
  cases hstatus : s.status with
  | established | closeWait => exact tcpTimeout_retried hflight h hdata
  | finWait1 | lastAck | closing => exact tcpTimeout_retried hflight h hfin
  | closed | listen | synSent | synRecv | finWait2 | timeWait =>
    simp [hstatus, Status.sendsPayload] at hsends

theorem timerExpires_retried_iff (hout : s.Outstanding) (hretries : s.retries < s.retryLimit) :
    (∃ t, timerExpires s = .ok t ∧ s.Retried t) ↔ ¬ (s.status = .synRecv ∧ s.env.ask.1 = 0) := by
  rw [timerExpires]
  by_cases hsent : s.status = .synSent
  · rw [Stream.retryLimit, if_pos (.inl hsent)] at hretries
    rw [if_pos hsent, hsent]
    exact iff_of_true (timerSynSent_retried hretries) nofun
  · by_cases hrecv : s.status = .synRecv
    · rw [Stream.retryLimit, if_pos (.inr hrecv)] at hretries
      rw [if_neg hsent, if_pos hrecv, timerSynRecv_retried_iff hretries]
      exact ⟨fun hne h => hne h.2, fun h hzero => h ⟨hrecv, hzero⟩⟩
    · rw [Stream.retryLimit, if_neg (not_or.mpr ⟨hsent, hrecv⟩)] at hretries
      obtain ⟨hsends, hflight⟩ := (hout.resolve_left hsent).resolve_left hrecv
      rw [if_neg hsent, if_neg hrecv]
      refine iff_of_true ⟨_, rfl, ?_⟩ fun h => hrecv h.1
      exact timerExpired_retried hsends hflight hretries

/-- The callback of a stream that waits for an acknowledgement, below its retry limit and its close
deadline, uses no absent fragment and goes on or aborts, unless it is to send a SYN+ACK again and
cannot allocate a fragment for it. -/
theorem timer_callback_retries_iff (s : Stream) (now : Nat) (hout : s.Outstanding)
    (hretries : s.retries < s.retryLimit)
    (hdeadline : s.closeDeadline = 0 ∨ now < s.closeDeadline) :
    (∃ t, tcpTimerCallback s now = .ok t ∧ s.Retried t) ↔
      ¬ (s.status = .synRecv ∧ s.env.ask.1 = 0) := by
  have hopen : ¬ (s.closeDeadline ≠ 0 ∧ now ≥ s.closeDeadline) := by
    rintro ⟨hset, hpassed⟩
    rcases hdeadline with hzero | hbefore
    · exact hset hzero
    · exact Nat.not_le.mpr hbefore hpassed
  rw [tcpTimerCallback]
  dsimp only
  rw [if_neg hopen]
  exact timerExpires_retried_iff (s := { s with timerArmed := false }) hout hretries

/-- A passive child that waits for the last acknowledgement of the handshake, given the answers of
the environment. -/
def halfOpen (env : Tape) : Stream where
  sndUna := 100
  env := env
  status := .synRecv
  rx := { recvAck := 500 }
  sentSeq := 100
  sndbuf := tcpSndbufInit 100

theorem timer_callback_retries_half_open :
    (halfOpen [1, 1]).Outstanding ∧ (halfOpen [1, 1]).retries < (halfOpen [1, 1]).retryLimit ∧
      ∃ t, tcpTimerCallback (halfOpen [1, 1]) 0 = .ok t ∧ (halfOpen [1, 1]).Retried t :=
  ⟨.inr (.inl rfl), by decide,
    (timer_callback_retries_iff (halfOpen [1, 1]) 0 (.inr (.inl rfl)) (by decide)
      (.inl rfl)).mpr fun h => Nat.one_ne_zero h.2⟩

/-- Without a fragment the options of the SYN+ACK are written all the same. -/
theorem synack_options_without_fragment :
    (halfOpen [0]).Outstanding ∧ (halfOpen [0]).retries < (halfOpen [0]).retryLimit ∧
      (halfOpen [0]).closeDeadline = 0 ∧
      tcpTimerCallback (halfOpen [0]) 0 = .error .absentFragment :=
  ⟨.inr (.inl rfl), by decide, rfl, rfl⟩

end SnowTG.Tcp
