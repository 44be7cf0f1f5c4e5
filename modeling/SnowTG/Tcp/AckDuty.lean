import SnowTG.Tcp.TransmitMoves

/-!
# The pending acknowledgement

A flush that finds an acknowledgement pending owes the peer one.  The debt is
paid by any segment with the current acknowledgement number; until then it stays
in the flag of the stream or in a queued control fragment.  Only the control
queue, the two senders of payload and the fragment made for the purpose touch
any of the three.
-/

namespace SnowTG.Tcp

open SnowTG.Lib List

/-- A queued fragment acknowledges up to `ack`. -/
def Fragment.Carries (f : Fragment) (ack : Seq) : Prop := f.acks = true ∧ f.ack = ack

/-- A segment on the wire acknowledges up to `ack`. -/
def WireSeg.Carries (seg : WireSeg) (ack : Seq) : Prop := seg.acks = true ∧ seg.ack = ack

instance (f : Fragment) (ack : Seq) : Decidable (f.Carries ack) :=
  inferInstanceAs (Decidable (_ ∧ _))

/-- A stream whose control queue is no longer than the ring or the list that holds it. -/
structure QueuedStream extends Stream where
  fits : txQueue.length ≤ toStream.txCapacity

/-- Where the acknowledgement of a stream can be: pending, queued or on the wire. -/
structure AckDuty where
  recvAck : Seq
  capacity : Nat
  pending : Bool
  queue : List Fragment
  out : List WireSeg

def Stream.ackDuty (s : Stream) : AckDuty :=
  { recvAck := s.rx.recvAck
    capacity := s.txCapacity
    pending := s.ackPending
    queue := s.txQueue
    out := s.out }

/-- A segment that acknowledges up to `ack` was emitted since the log was `before`. -/
def SentSince (before : List WireSeg) (ack : Seq) (out : List WireSeg) : Prop :=
  ∃ segs, out = before ++ segs ∧ ∃ seg ∈ segs, seg.Carries ack

variable {before out : List WireSeg} {ack : Seq} {d d' : AckDuty} {s t : Stream}

theorem SentSince.append (h : SentSince before ack out) (segs : List WireSeg) :
    SentSince before ack (out ++ segs) := by
  obtain ⟨sent, rfl, seg, hseg, hcarries⟩ := h
  refine ⟨sent ++ segs, append_assoc _ _ _, seg, ?_, hcarries⟩
  exact mem_append_left _ hseg

theorem SentSince.last {seg : WireSeg} (hgrown : before <+: out) (hcarries : seg.Carries ack) :
    SentSince before ack (out ++ [seg]) := by
  obtain ⟨sent, rfl⟩ := hgrown
  refine ⟨sent ++ [seg], append_assoc _ _ _, seg, ?_, hcarries⟩
  exact mem_append_right _ (mem_singleton_self seg)

/-- The acknowledgement of `ack`, owed since the log was `before`, was sent or is still owed by the
flag or by the queue. -/
structure AckDuty.Owes (before : List WireSeg) (ack : Seq) (d : AckDuty) : Prop where
  recvAck : d.recvAck = ack
  grown : before <+: d.out
  fits : d.queue.length ≤ d.capacity
  owed : SentSince before ack d.out ∨ d.pending = true ∨ ∃ f ∈ d.queue, f.Carries ack

/-- What sending payload does to the duty: nothing, or one segment with the current acknowledgement
number went out and the flag was cleared. -/
def AckDuty.Moves (d d' : AckDuty) : Prop :=
  d' = d ∨ ∃ seg : WireSeg, seg.Carries d.recvAck ∧
    d' = { d with pending := false, out := d.out ++ [seg] }

theorem AckDuty.Moves.owes (h : d.Moves d') (howes : d.Owes before ack) : d'.Owes before ack := by
  rcases h with rfl | ⟨seg, hcarries, rfl⟩
  · exact howes
  · refine ⟨howes.recvAck, howes.grown.trans (prefix_append _ _), howes.fits, .inl ?_⟩
    exact .last howes.grown (howes.recvAck ▸ hcarries)

theorem AckDuty.Moves.queue (h : d.Moves d') : d'.queue = d.queue := by
  rcases h with rfl | ⟨seg, -, rfl⟩ <;> rfl

theorem Stream.Prepared.ackDuty (h : s.Prepared t) : t.ackDuty = s.ackDuty := by
  obtain ⟨tp, dsack, recent, -, -, rfl⟩ := h
  rfl

section Control

variable {f : Fragment} {rest : List Fragment}

/-- A fragment that was just taken out fits again. -/
theorem requeueControl_owes (result : TxFlush)
    (h : ({ s.ackDuty with queue := f :: rest } : AckDuty).Owes before ack) :
    (requeueControl s f rest result).1 = some result ∧
      (requeueControl s f rest result).2.ackDuty.Owes before ack := by
  obtain ⟨hrecvAck, hgrown, hfits, howed⟩ := h
  have hroom : ¬ rest.length ≥ s.txCapacity := Nat.not_le.mpr hfits
  rw [requeueControl, if_neg hroom]
  refine ⟨rfl, ?_⟩
  by_cases hrings : s.rx.ioRings = true
  · rw [if_pos hrings]
    refine ⟨hrecvAck, hgrown, ?_, ?_⟩
    · change (rest ++ [f]).length ≤ s.txCapacity
      rw [length_append]
      exact hfits
    · rcases howed with hsent | hflag | ⟨g, hg, hcarries⟩
      · exact .inl hsent
      · exact .inr (.inl hflag)
      · refine .inr (.inr ⟨g, ?_, hcarries⟩)
        exact (perm_append_singleton f rest).mem_iff.mpr hg
  · rw [if_neg hrings]
    exact ⟨hrecvAck, hgrown, hfits, howed⟩

/-- Emitting the head of the control queue pays the debt if that fragment owed it, and the flag is
cleared only then. -/
theorem AckDuty.Owes.emit_head (h : d.Owes before ack) (hqueue : d.queue = f :: rest)
    (current : Bool) (hcurrent : current = true → f.Carries d.recvAck) :
    ({ d with
        pending := d.pending && !current, queue := rest, out := d.out ++ [f.toWire] } : AckDuty).Owes
      before ack := by
  obtain ⟨hrecvAck, hgrown, hfits, howed⟩ := h
  rw [hqueue] at hfits howed
  rw [hrecvAck] at hcurrent
  refine ⟨hrecvAck, hgrown.trans (prefix_append _ _), Nat.le_of_succ_le hfits, ?_⟩
  by_cases hcarries : f.Carries ack
  · exact .inl (.last hgrown hcarries)
  · rcases howed with hsent | hflag | ⟨g, hg, hg'⟩
    · exact .inl (hsent.append _)
    · have hstale : current = false := Bool.eq_false_iff.mpr fun h => hcarries (hcurrent h)
      refine .inr (.inl ?_)
      simp [hflag, hstale]
    · rcases mem_cons.mp hg with rfl | hrest
      · exact absurd hg' hcarries
      · exact .inr (.inr ⟨g, hrest, hg'⟩)

/-- The loop over the control queue keeps the debt, and ends without a result or with one that asks
for another flush. -/
theorem flushControl_owes (queue : List Fragment)
    (h : ({ s.ackDuty with queue := queue } : AckDuty).Owes before ack) :
    (tcpTxFlushControl queue s).2.ackDuty.Owes before ack ∧
      (tcpTxFlushControl queue s).1 ≠ some .idle ∧
      ((tcpTxFlushControl queue s).1 = none → (tcpTxFlushControl queue s).2.txQueue = []) := by
  induction queue generalizing s with
  | nil => exact ⟨h, by simp [tcpTxFlushControl], fun _ => rfl⟩
  | cons f rest ih =>
    simp only [tcpTxFlushControl]
    by_cases hmac : s.ask.1 = 0
    · rw [if_pos hmac]
      obtain ⟨hresult, howes⟩ :=
        requeueControl_owes (s := s.ask.2) .arpWait h
      refine ⟨howes, ?_, ?_⟩
      · simp [hresult]
      · simp [hresult]
    · rw [if_neg hmac]
      rcases tcpEmit_cases s.ask.2 f.toWire with ⟨t, hasked, hemit⟩ | ⟨t, hasked, hemit⟩
      · rw [hemit]
        have hkept : ({ t.ackDuty with queue := f :: rest } : AckDuty).Owes before ack := by
          rw [hasked.ackDuty]
          exact h
        obtain ⟨hresult, howes⟩ := requeueControl_owes .retry hkept
        refine ⟨howes, ?_, ?_⟩
        · simp [hresult]
        · simp [hresult]
      · rw [hemit]
        apply ih
        obtain ⟨tp, dsack, recent, -, -, rfl⟩ := hasked
        refine h.emit_head rfl _ fun hcurrent => ?_
        simp only [Bool.and_eq_true, decide_eq_true_eq] at hcurrent
        exact ⟨hcurrent.1.1.1, hcurrent.1.2⟩

end Control

section Payload

/-- Sending a range again moves the debt as any part of the flush may. -/
theorem flushRecovery_moves (s : Stream) : s.ackDuty.Moves (flushRecoveryTurn s).2.ackDuty := by
  have hscheduled := (recoverySchedule_prepared s).ackDuty
  rcases flushRecoveryTurn_cases s with heq | ⟨candidate, heq⟩ <;> rw [heq]
  · exact .inl hscheduled
  · rw [← hscheduled]
    rcases recoveryRetransmit_cases (recoverySchedule s) candidate with
      hidle | ⟨t, chunk, n, words, hready, -, -, hsent⟩
    · exact .inl hidle.ackDuty
    · rw [hsent]
      obtain ⟨tp, dsack, recent, -, -, rfl⟩ := hready
      exact .inr ⟨_, ⟨rfl, rfl⟩, rfl⟩

theorem armOrAbort_duty (s : Stream) (sendReset : Bool) (h : (armOrAbort s sendReset).1 = true) :
    (armOrAbort s sendReset).2.ackDuty = s.ackDuty := by
  simp only [armOrAbort, tcpArmTimer] at h ⊢
  by_cases harmed : s.ask.1 = 0
  · simp [harmed] at h
  · rw [if_neg harmed]
    rfl

/-- Unless the timer cannot be armed, payload that went out pays the debt. -/
theorem sndbufSent_moves {seg : WireSeg}
    (hduty : t.ackDuty = { s.ackDuty with out := s.out ++ [seg] })
    (hcarries : seg.Carries s.rx.recvAck) (wasIdle : Bool) (seglen : Nat)
    (hkept : (sndbufSent t wasIdle seglen).1 ≠ .destroyed) :
    s.ackDuty.Moves (sndbufSent t wasIdle seglen).2.ackDuty := by
  have hsent : s.ackDuty.Moves (sndbufCharge t seglen).ackDuty :=
    .inr ⟨seg, hcarries, congrArg (fun d : AckDuty => { d with pending := false }) hduty⟩
  cases wasIdle with
  | false => exact hsent
  | true =>
    have harmed := armOrAbort_duty { sndbufCharge t seglen with retries := 0 } true
    simp only [sndbufSent, if_true] at hkept ⊢
    generalize armOrAbort { sndbufCharge t seglen with retries := 0 } true = result
      at harmed hkept ⊢
    obtain ⟨armed, u⟩ := result
    cases armed with
    | false => exact absurd rfl hkept
    | true => exact (harmed rfl : u.ackDuty = (sndbufCharge t seglen).ackDuty) ▸ hsent

/-- Unless the stream was aborted, taking payload from the send buffer moves the debt as any part
of the flush may. -/
theorem flushSndbuf_moves (s : Stream) (hkept : (tcpTxFlushSndbuf s).1 ≠ .destroyed) :
    s.ackDuty.Moves (tcpTxFlushSndbuf s).2.ackDuty := by
  rcases flushSndbuf_cases s with
    ⟨-, hidle⟩ | ⟨t, chunk, n, words, hready, -, -, -, -, -, hsent⟩
  · exact .inl hidle.ackDuty
  · rw [hsent] at hkept ⊢
    obtain ⟨tp, dsack, recent, -, -, rfl⟩ := hready
    exact sndbufSent_moves rfl ⟨rfl, rfl⟩ _ _ hkept

end Payload

section Rounds

/-- A fragment that was made and queued carries the current acknowledgement number. -/
theorem enqueueFragment_duty (s : Stream) (fin : Bool) (seq : Seq) :
    (∃ t, tcpEnqueueFragment s fin seq = (false, t) ∧ t.ackDuty = s.ackDuty) ∨
      ∃ t f, tcpEnqueueFragment s fin seq = (true, t) ∧ f.Carries s.rx.recvAck ∧
        s.txQueue.length < s.txCapacity ∧
        t.ackDuty = { s.ackDuty with queue := s.txQueue ++ [f] } := by
  simp only [tcpEnqueueFragment]
  by_cases hmade : s.ask.1 = 0
  · rw [if_pos hmade]
    exact .inl ⟨_, rfl, rfl⟩
  · rw [if_neg hmade, nsockTcpTxEnqueue]
    by_cases hfull : (tcpOptionsApplyEstablished s.ask.2).2.txQueue.length ≥
        (tcpOptionsApplyEstablished s.ask.2).2.txCapacity
    · rw [if_pos hfull]
      exact .inl ⟨_, rfl, rfl⟩
    · rw [if_neg hfull]
      exact .inr ⟨_, _, rfl, ⟨rfl, rfl⟩, Nat.not_le.mp hfull, rfl⟩

/-- One more fragment in the queue keeps the debt, and may take it over from the flag. -/
theorem AckDuty.Owes.enqueue {f : Fragment} (h : d.Owes before ack) (hcarries : f.Carries d.recvAck)
    (hroom : d.queue.length < d.capacity) (pending : Bool) :
    ({ d with pending := pending, queue := d.queue ++ [f] } : AckDuty).Owes before ack where
  recvAck := h.recvAck
  grown := h.grown
  fits := by
    change (d.queue ++ [f]).length ≤ d.capacity
    rw [length_append]
    exact hroom
  owed := by
    refine .inr (.inr ⟨f, ?_, h.recvAck ▸ hcarries⟩)
    exact mem_append_right _ (mem_singleton_self f)

/-- The debt is kept, and nothing but a segment on the wire has paid it when the flush is idle. -/
def Settles (before : List WireSeg) (ack : Seq) (result : Option TxFlush) (s : Stream) : Prop :=
  result = some .destroyed ∨
    s.ackDuty.Owes before ack ∧ (result = some .idle → s.ackPending = false ∧ s.txQueue = [])

theorem flushDeferredFin_settles (h : s.ackDuty.Owes before ack) :
    Settles before ack (flushDeferredFin s).1 (flushDeferredFin s).2 := by
  rw [flushDeferredFin]
  rcases enqueueFragment_duty s true s.sentSeq with
    ⟨t, hfailed, -⟩ | ⟨t, f, hqueued, hcarries, hroom, hduty⟩
  · rw [hfailed]
    exact .inl rfl
  · rw [hqueued]
    have harmed := armOrAbort_duty { t with sentSeq := t.sentSeq + 1, finDeferred := false } true
    simp only
    generalize armOrAbort { t with sentSeq := t.sentSeq + 1, finDeferred := false } true = result
      at harmed ⊢
    obtain ⟨armed, u⟩ := result
    cases armed with
    | false => exact .inl rfl
    | true =>
      have hsame : u.ackDuty = t.ackDuty := harmed rfl
      refine .inr ⟨?_, fun hidle => by cases hidle⟩
      rw [hsame, hduty]
      exact h.enqueue hcarries hroom s.ackPending

theorem flushPayloadRound_settles (h : s.ackDuty.Owes before ack) (hempty : s.txQueue = []) :
    Settles before ack (flushPayloadRound s).1 (flushPayloadRound s).2 := by
  rw [flushPayloadRound]
  have hmoves := flushSndbuf_moves s
  generalize tcpTxFlushSndbuf s = result at hmoves ⊢
  obtain ⟨flush, t⟩ := result
  cases flush with
  | destroyed => exact .inl rfl
  | arpWait | retry | sent => exact .inr ⟨(hmoves (by simp)).owes h, fun hidle => by cases hidle⟩
  | idle =>
    have howes : t.ackDuty.Owes before ack := (hmoves (by simp)).owes h
    have hqueue : t.txQueue = [] := (hmoves (by simp)).queue.trans hempty
    dsimp only
    by_cases hpending : t.ackPending = true
    · rw [if_pos hpending]
      rcases enqueueFragment_duty t false t.sentSeq with
        ⟨u, hfailed, hduty⟩ | ⟨u, f, hqueued, hcarries, hroom, hduty⟩
      · rw [hfailed]
        exact .inr ⟨hduty ▸ howes, fun hidle => by cases hidle⟩
      · rw [hqueued]
        have hmoved : u.ackDuty = { t.ackDuty with queue := t.txQueue ++ [f] } := hduty
        have hnext : ({ u.ackDuty with pending := false } : AckDuty).Owes before ack := by
          rw [hmoved]
          exact howes.enqueue hcarries hroom false
        exact .inr ⟨hnext, fun hidle => by cases hidle⟩
    · rw [if_neg hpending]
      split_ifs
      · exact flushDeferredFin_settles howes
      · exact .inr ⟨howes, fun _ => ⟨Bool.eq_false_iff.mpr hpending, hqueue⟩⟩

/-- The recovery loop keeps the debt and the empty queue. -/
theorem flushRecovery_owes (h : s.ackDuty.Owes before ack) (hempty : s.txQueue = []) (turns : Nat) :
    (repeatUntil flushRecoveryTurn turns s).2.ackDuty.Owes before ack ∧
      (repeatUntil flushRecoveryTurn turns s).2.txQueue = [] := by
  apply repeatUntil_invariant (P := fun t : Stream => t.ackDuty.Owes before ack ∧ t.txQueue = [])
  · intro t ⟨howes, hqueue⟩
    have hmoves := flushRecovery_moves t
    exact ⟨hmoves.owes howes, hmoves.queue.trans hqueue⟩
  · exact ⟨h, hempty⟩

theorem flushRound_settles (turns : Nat) (h : s.ackDuty.Owes before ack) :
    Settles before ack (tcpTxFlushRound turns s).1 (tcpTxFlushRound turns s).2 := by
  rw [tcpTxFlushRound]
  obtain ⟨howes, hbusy, hdrained⟩ := flushControl_owes s.txQueue h
  generalize tcpTxFlushControl s.txQueue s = result at howes hbusy hdrained ⊢
  obtain ⟨control, t⟩ := result
  cases control with
  | some control => exact .inr ⟨howes, fun hidle => absurd hidle hbusy⟩
  | none =>
    obtain ⟨hrecovered, hempty⟩ := flushRecovery_owes howes (hdrained rfl) turns
    dsimp only
    generalize repeatUntil flushRecoveryTurn turns t = recovery at hrecovered hempty ⊢
    obtain ⟨flush, u⟩ := recovery
    rcases flush with _ | _ | _ | _ | _ | _
    · exact flushPayloadRound_settles hrecovered hempty
    · exact flushPayloadRound_settles hrecovered hempty
    · exact flushPayloadRound_settles hrecovered hempty
    · exact .inr ⟨hrecovered, fun hidle => by cases hidle⟩
    · exact .inr ⟨hrecovered, fun hidle => by cases hidle⟩
    · exact flushPayloadRound_settles hrecovered hempty

end Rounds

/-- A flush that starts with an acknowledgement pending has sent it when it reports idle, and has
sent it or still owes it when it asks to be called again. -/
theorem pending_ack_kept (s : QueuedStream) (hflushes : s.status.flushes = true)
    (hpending : s.ackPending = true) (rounds : Nat) (result : TxFlush) (t : Stream)
    (hrun : tcpTxFlush rounds s.toStream = (some result, t)) :
    (result = .idle → SentSince s.out s.rx.recvAck t.out) ∧
      (result = .retry ∨ result = .arpWait →
        SentSince s.out s.rx.recvAck t.out ∨ t.ackPending = true ∨
          ∃ f ∈ t.txQueue, f.Carries s.rx.recvAck) := by
  have hstart : s.ackDuty.Owes s.out s.rx.recvAck :=
    ⟨rfl, prefix_rfl, s.fits, .inr (.inl hpending)⟩
  rw [tcpTxFlush, hflushes] at hrun
  have hend : Settles s.out s.rx.recvAck (some result) t := by
    refine repeatUntil_result (P := fun u : Stream => u.ackDuty.Owes s.out s.rx.recvAck)
      (Q := fun found u => Settles s.out s.rx.recvAck (some found) u) ?_ ?_ hstart hrun
    · intro u u' howes hround
      have hsettles := flushRound_settles rounds howes
      rw [hround] at hsettles
      rcases hsettles with hdestroyed | ⟨hkept, -⟩
      · cases hdestroyed
      · exact hkept
    · intro u u' found howes hround
      have hsettles := flushRound_settles rounds howes
      rwa [hround] at hsettles
  rcases hend with hdestroyed | ⟨howes, hidle⟩
  · cases hdestroyed
    exact ⟨fun hidle => (by cases hidle), by simp⟩
  · refine ⟨?_, fun _ => howes.owed⟩
    rintro rfl
    obtain ⟨hcleared, hempty⟩ := hidle rfl
    rcases howes.owed with hsent | hflag | ⟨f, hf, -⟩
    · exact hsent
    · exact absurd (hcleared.symm.trans hflag) Bool.false_ne_true
    · have hqueue : f ∈ t.txQueue := hf
      rw [hempty] at hqueue
      cases hqueue

/-- An established stream with an acknowledgement pending, given its unsent bytes and the answers
of the environment. -/
def owingStream (bytes : List UInt8) (env : Tape) : QueuedStream where
  sndUna := 100
  sndMss := 1
  env := env
  rx := { recvAck := 500 }
  sentSeq := 100
  sndbuf :=
    { chunks := if bytes.isEmpty then [] else [{ data := bytes, off := 0 }]
      len := bytes.length
      headSeq := 100 }
  sndWnd := 10
  nodelay := true
  ackPending := true
  fits := Nat.zero_le _

/-- With nothing else to send a segment of its own carries the acknowledgement. -/
theorem pending_ack_kept_alone :
    let s := owingStream [] [1, 1, 0, 0, 1, 1, 1]
    s.status.flushes = true ∧ s.ackPending = true ∧
      (tcpTxFlush 3 s.toStream).1 = some .idle ∧
      SentSince s.out s.rx.recvAck (tcpTxFlush 3 s.toStream).2.out := by
  refine ⟨rfl, rfl, rfl, ?_⟩
  apply (pending_ack_kept (owingStream [] [1, 1, 0, 0, 1, 1, 1]) rfl rfl 3 .idle _ rfl).1
  rfl

/-- Two bytes go out in segments of their own and the output ring takes the first only: the flush
asks to be called again, and neither the flag nor the queue owes what the first segment carried. -/
theorem ack_sent_before_retry :
    let result := tcpTxFlush 3
      (owingStream [1, 2] [10, 1, 1, 0, 0, 1, 1, 1, 10, 1, 1, 0, 0, 1, 0]).toStream
    result.1 = some .retry ∧ result.2.ackPending = false ∧ result.2.txQueue = [] := by
  decide

end SnowTG.Tcp
