import SnowTG.Tcp.ReceiveRun
import SnowTG.Tcp.SenderRun

/-!
# The recent timestamp of the peer

`ts_recent` is compared with the timestamp of an arriving segment before the
handler of the state runs, and replaced by it when that handler has advanced
`recv_ack`.  The comparison is made for acceptable segments of the established
state that do not start left of `recv_ack`; the replacement is made in every
state.
-/

namespace SnowTG.Tcp

open SnowTG.Lib

/-- A stream with its timestamp fields; the clock counts milliseconds.  `idled` is history: the idle
rule has cleared `tsRecentValid` since the timestamp was stored. -/
structure TimedStream where
  stream : Stream
  timestampsOk : Bool
  tsRecent : BitVec 32
  tsRecentValid : Bool
  tsRecentAge : BitVec 32
  idled : Bool := false
  deriving DecidableEq, Repr

/-- `TCP_PAWS_IDLE_MS`: 24 days. -/
def tcpPawsIdleMs : Nat := 24 * 24 * 60 * 60 * 1000

/-- The idle rule: a timestamp that was stored too long ago is not valid any more. -/
def TimedStream.expire (st : TimedStream) (now : BitVec 32) : TimedStream :=
  if st.tsRecentValid && (now - st.tsRecentAge).toNat > tcpPawsIdleMs then
    { st with tsRecentValid := false, idled := true }
  else st

/-- `tcp_options_process_inbound` of a segment without RST, given its timestamp: zero passes, one
is a missing option, two a stale timestamp. -/
def tcpOptionsProcessInbound (st : TimedStream) (stamp : Option (BitVec 32)) (seq : Seq)
    (acceptable : Bool) (now : BitVec 32) : Nat × TimedStream :=
  if !st.timestampsOk then (0, st)
  else
    match stamp with
    | none => (1, st)
    | some tsval =>
      let st := st.expire now
      if acceptable && !Serial.lt seq st.stream.rx.recvAck && st.tsRecentValid &&
          Serial.lt tsval st.tsRecent then (2, st)
      else (0, st)

/-- `tcp_options_note_receive_progress`. -/
def tcpOptionsNoteReceiveProgress (st : TimedStream) (stamp : Option (BitVec 32))
    (now : BitVec 32) : TimedStream :=
  match st.timestampsOk, stamp with
  | true, some tsval =>
    { st with tsRecent := tsval, tsRecentValid := true, tsRecentAge := now, idled := false }
  | _, _ => st

/-- `seq_acceptable` of `tcp_ingress`. -/
def TimedStream.inWindow (st : TimedStream) (seg : Segment) : Bool :=
  st.stream.status = .established &&
    tcpSegmentAcceptable st.stream.rx seg.seq seg.payload.length seg.fin

/-- `tcp_ingress` with the timestamp of the segment. -/
def timedIngress (st : TimedStream) (seg : Segment) (stamp : Option (BitVec 32))
    (now : BitVec 32) : TimedStream :=
  if st.stream.status = .closed ∨ seg.rst = true then
    { st with stream := tcpIngress st.stream seg }
  else
    let (verdict, st) := tcpOptionsProcessInbound st stamp seg.seq (st.inWindow seg) now
    let s := tcpIngress { st.stream with env := verdict :: st.stream.env, tsNoted := false } seg
    let st := { st with stream := s }
    if s.tsNoted then tcpOptionsNoteReceiveProgress st stamp now else st

section Progress

variable {s t : Stream} {seg : Segment}

theorem enqueueFragment_tsNoted (s : Stream) (fin : Bool) (seq : Seq) :
    (tcpEnqueueFragment s fin seq).2.tsNoted = s.tsNoted := by
  simp only [tcpEnqueueFragment, nsockTcpTxEnqueue]
  split_ifs <;> rfl

theorem abortStream_tsNoted (s : Stream) (error : Nat) (sendReset : Bool) :
    (tcpAbortStream s error sendReset).tsNoted = s.tsNoted := by
  simp only [tcpAbortStream, tcpTrySendAbortReset]
  split_ifs <;> rfl

/-- An acknowledgement leaves the receive side alone, unless it aborts the stream; the note it
leaves alone in any case. -/
theorem processPeerAckEx_progress (s : Stream) (ack : Seq) (sacks : List SackBlock)
    (classicDup applyWindow : Bool) (segSeq : Seq) (segWnd : BitVec 16) (scale : Nat) :
    let result := tcpProcessPeerAckEx s ack sacks classicDup applyWindow segSeq segWnd scale
    result.2.tsNoted = s.tsNoted ∧ (result.1 = true → result.2.rx = s.rx) := by
  have htimer : ∀ (t : Stream) (progressed : Bool), (ackTimer t progressed).2.tsNoted = t.tsNoted ∧
      ((ackTimer t progressed).1 = true → (ackTimer t progressed).2.rx = t.rx) := by
    intro t progressed
    simp only [ackTimer, armOrAbort, tcpArmTimer]
    by_cases hdone : (progressed && decide (t.sndUna = t.sentSeq)) = true
    · rw [if_pos hdone]
      exact ⟨rfl, fun _ => rfl⟩
    rw [if_neg hdone]
    by_cases hprogressed : progressed = true
    · rw [if_pos hprogressed]
      by_cases harmed : ({ t with retries := 0 } : Stream).ask.1 = 0
      · rw [if_pos harmed]
        refine ⟨abortStream_tsNoted _ _ _, fun h => ?_⟩
        exact absurd h Bool.false_ne_true
      · rw [if_neg harmed]
        exact ⟨rfl, fun _ => rfl⟩
    · rw [if_neg hprogressed]
      exact ⟨rfl, fun _ => rfl⟩
  have hwindow : ∀ t : Stream,
      (tcpUpdateSndWndLocal t segSeq ack segWnd scale).tsNoted = t.tsNoted ∧
      (tcpUpdateSndWndLocal t segSeq ack segWnd scale).rx = t.rx := by
    intro t
    rw [tcpUpdateSndWndLocal]
    split_ifs <;> exact ⟨rfl, rfl⟩
  have haccept : ∀ t : Stream, (ackAccept t ack sacks classicDup).2.tsNoted = t.tsNoted ∧
      ((ackAccept t ack sacks classicDup).1 = true →
        (ackAccept t ack sacks classicDup).2.rx = t.rx) := by
    intro t
    have hretire : (ackRetire t ack).tsNoted = t.tsNoted ∧ (ackRetire t ack).rx = t.rx := by
      rw [ackRetire]
      split_ifs <;> exact ⟨rfl, rfl⟩
    refine ⟨(htimer _ _).1.trans hretire.1, fun h => ?_⟩
    exact ((htimer _ _).2 h).trans hretire.2
  simp only [tcpProcessPeerAckEx]
  by_cases hrange : (Serial.lt ack s.sndUna || Serial.gt ack s.sentSeq) = true
  · rw [if_pos hrange]
    exact ⟨rfl, fun _ => rfl⟩
  · rw [if_neg hrange]
    cases applyWindow with
    | false => exact haccept s
    | true =>
      obtain ⟨hnoted, hrx⟩ := haccept (tcpUpdateSndWndLocal s segSeq ack segWnd scale)
      exact ⟨hnoted.trans (hwindow s).1, fun h => (hrx h).trans (hwindow s).2⟩

/-- A segment that is not acceptable makes no progress. -/
theorem receiveStreamSegment_tsNoted
    (hreject : tcpSegmentAcceptable s.rx seg.seq seg.payload.length seg.fin = false) :
    (tcpReceiveStreamSegment s seg).2.tsNoted = s.tsNoted := by
  have hrecvAck : (tcpReceiveRange s.rx s.status seg.seq seg.payload seg.fin).recvAck =
      s.rx.recvAck := by
    -- the window check reads nothing that the notes before it have written
    obtain ⟨pending, block, hnote⟩ := noteDuplicate_eq s.rx seg.seq seg.payload.length
    simp only [tcpReceiveRange, hnote]
    by_cases hconsumed : s.status.peerFinConsumed = true
    · rw [if_pos hconsumed]
      rfl
    · rw [if_neg hconsumed]
      by_cases heof : s.rx.peerEof = true
      · rw [if_pos heof]
      · have hreject' : tcpSegmentAcceptable { s.rx with
            dsackPending := pending, dsackBlock := block }
            seg.seq seg.payload.length seg.fin = false := hreject
        rw [if_neg heof, hreject', if_pos Bool.not_false]
        split_ifs
        · exact (recordDrop_onlyOwner _ _ _ _).sameReader.recvAck
        · rfl
  have hrange : tcpReceiveStreamRange s seg.seq seg.payload seg.fin =
      (true, { s with rx := tcpReceiveRange s.rx s.status seg.seq seg.payload seg.fin }) := by
    have htakes : s.rx.takes s.status seg.seq seg.payload.length seg.fin = false := by
      rw [Rx.takes, hreject, Bool.and_false]
    simp only [tcpReceiveStreamRange, htakes, Bool.false_eq_true, if_false]
  simp only [tcpReceiveStreamSegment, hrange]
  split_ifs
  · rfl
  · rfl
  · simp [hrecvAck]
  · rw [enqueueFragment_tsNoted]
    simp [hrecvAck]

/-- The established state makes no progress on a segment that is not acceptable. -/
theorem stateEstablished_tsNoted
    (hreject : tcpSegmentAcceptable s.rx seg.seq seg.payload.length seg.fin = false) :
    (tcpStateEstablished s seg).tsNoted = s.tsNoted := by
  rw [tcpStateEstablished]
  split_ifs
  · have hpeer := fun classicDup => processPeerAckEx_progress s seg.ackNum seg.sacks classicDup true
      seg.seq seg.window s.sndWscale
    simp only [unlessAborted]
    split_ifs with hok
    · have hrx := (hpeer _).2 hok
      rw [receiveStreamSegment_tsNoted (by rw [hrx]; exact hreject)]
      exact (hpeer _).1
    · exact (hpeer _).1
  · exact receiveStreamSegment_tsNoted hreject

/-- A stale timestamp lets the established state make no progress. -/
theorem tcpIngress_stale (hask : s.ask = (2, t)) (hnoted : t.tsNoted = s.tsNoted)
    (hopen : s.status ≠ .closed) (hrst : seg.rst = false)
    (hcompared : (t.status = .established &&
      tcpSegmentAcceptable t.rx seg.seq seg.payload.length seg.fin &&
      !Serial.lt seg.seq t.rx.recvAck) = true) :
    (tcpIngress s seg).tsNoted = s.tsNoted := by
  rw [tcpIngress, if_neg hopen, if_neg (by simp [hrst])]
  simp only [hask]
  rw [if_neg (by decide), if_neg (by decide), if_pos hcompared, enqueueFragment_tsNoted]
  exact hnoted

/-- The established state makes no progress on a segment outside the window. -/
theorem tcpIngress_outside (hask : s.ask = (0, t)) (hnoted : t.tsNoted = s.tsNoted)
    (hopen : s.status ≠ .closed) (hrst : seg.rst = false) (hstatus : t.status = .established)
    (hreject : tcpSegmentAcceptable t.rx seg.seq seg.payload.length seg.fin = false) :
    (tcpIngress s seg).tsNoted = s.tsNoted := by
  rw [tcpIngress, if_neg hopen, if_neg (by simp [hrst])]
  simp only [hask, if_true]
  rw [tcpStateHandle, hstatus]
  exact (stateEstablished_tsNoted hreject).trans hnoted

end Progress

section Runs

/-- What happens to a connection: a segment with its timestamp and the clock at its arrival, or a
call that is not a segment. -/
inductive TimedEvent where
  | segment (seg : Segment) (stamp : Option (BitVec 32)) (now : BitVec 32) (world : Surroundings)
  | call (call : SenderCall) (world : Surroundings)
  deriving DecidableEq, Repr

/-- One event of a run. -/
def timedStep (st : TimedStream) : TimedEvent → TimedStream
  | .segment seg stamp now w =>
    timedIngress { st with stream := st.stream.within w } seg stamp now
  | .call call w => { st with stream := (call.apply (st.stream.within w)).1 }

/-- The call is not an arriving segment. -/
def SenderCall.IsLocal : SenderCall → Bool
  | .segment _ => false
  | _ => true

/-- Runs of a connection from the end of the handshake on, which has stored the timestamp of the
peer's SYN if the option was agreed on. -/
def timedSystem : System TimedStream TimedEvent where
  init st := st.stream.status = .established ∧ st.tsRecentValid = st.timestampsOk ∧
    st.idled = false
  enabled st
    | .segment _ _ _ _ => st.stream.freed = false
    | .call call _ => call.IsLocal = true ∧ call.Allowed st.stream
  step := timedStep

instance (st : TimedStream) : (e : TimedEvent) → Decidable (timedSystem.enabled st e)
  | .segment _ _ _ _ => inferInstanceAs (Decidable (st.stream.freed = false))
  | .call call _ => inferInstanceAs (Decidable (call.IsLocal = true ∧ call.Allowed st.stream))

/-- Only the idle rule invalidates the stored timestamp of a connection that uses timestamps. -/
def TimedStream.Kept (st : TimedStream) : Prop :=
  st.timestampsOk = true → st.tsRecentValid = false → st.idled = true

/-- A segment older than the stored timestamp is compared with it: it arrives in the established
state and does not start left of `recv_ack`. -/
def Compared (st : TimedStream) : TimedEvent → Prop
  | .segment seg (some tsval) _ _ =>
    st.timestampsOk = true → seg.rst = false → Serial.lt tsval st.tsRecent = true →
      st.stream.status = .established ∧ Serial.lt seg.seq st.stream.rx.recvAck = false
  | .segment _ none _ _ | .call _ _ => True

instance (st : TimedStream) : (e : TimedEvent) → Decidable (Compared st e)
  | .segment seg (some tsval) _ _ => inferInstanceAs (Decidable (st.timestampsOk = true →
      seg.rst = false → Serial.lt tsval st.tsRecent = true →
        st.stream.status = .established ∧ Serial.lt seg.seq st.stream.rx.recvAck = false))
  | .segment _ none _ _ | .call _ _ => inferInstanceAs (Decidable True)

theorem expire_frame (st : TimedStream) (now : BitVec 32) :
    (st.expire now).stream = st.stream ∧ (st.expire now).timestampsOk = st.timestampsOk ∧
      (st.expire now).tsRecent = st.tsRecent := by
  rw [TimedStream.expire]
  split_ifs <;> exact ⟨rfl, rfl, rfl⟩

theorem expire_setStream (st : TimedStream) (s : Stream) (now : BitVec 32) :
    TimedStream.expire { st with stream := s } now = { st.expire now with stream := s } := by
  simp only [TimedStream.expire]
  split_ifs <;> rfl

variable {st : TimedStream}

theorem TimedStream.Kept.expire (h : st.Kept) (now : BitVec 32) : (st.expire now).Kept := by
  rw [TimedStream.expire]
  split_ifs
  · exact fun _ _ => rfl
  · exact h

theorem processInbound_cases (st : TimedStream) (stamp : Option (BitVec 32)) (seq : Seq)
    (acceptable : Bool) (now : BitVec 32) :
    (tcpOptionsProcessInbound st stamp seq acceptable now).2 = st ∨
      (tcpOptionsProcessInbound st stamp seq acceptable now).2 = st.expire now := by
  rw [tcpOptionsProcessInbound.eq_def]
  split_ifs
  · exact .inl rfl
  · cases stamp with
    | none => exact .inl rfl
    | some tsval =>
      right
      dsimp only
      split_ifs <;> rfl

theorem processInbound_frame (st : TimedStream) (stamp : Option (BitVec 32)) (seq : Seq)
    (acceptable : Bool) (now : BitVec 32) :
    (tcpOptionsProcessInbound st stamp seq acceptable now).2.stream = st.stream ∧
      (tcpOptionsProcessInbound st stamp seq acceptable now).2.timestampsOk = st.timestampsOk ∧
      (tcpOptionsProcessInbound st stamp seq acceptable now).2.tsRecent = st.tsRecent := by
  rcases processInbound_cases st stamp seq acceptable now with hsame | hexpired
  · rw [hsame]
    exact ⟨rfl, rfl, rfl⟩
  · rw [hexpired]
    exact expire_frame st now

/-- A segment keeps the timestamp valid until the idle rule applies. -/
theorem TimedStream.Kept.ingress (h : st.Kept) (seg : Segment) (stamp : Option (BitVec 32))
    (now : BitVec 32) : (timedIngress st seg stamp now).Kept := by
  have hprocess : (tcpOptionsProcessInbound st stamp seg.seq (st.inWindow seg) now).2.Kept := by
    rcases processInbound_cases st stamp seg.seq (st.inWindow seg) now with hsame | hexpired
    · rw [hsame]
      exact h
    · rw [hexpired]
      exact h.expire now
  have hnote : ∀ s : TimedStream, s.Kept → (tcpOptionsNoteReceiveProgress s stamp now).Kept := by
    intro s hs
    rw [tcpOptionsNoteReceiveProgress.eq_def]
    split
    · exact fun _ hinvalid => Bool.noConfusion hinvalid
    · exact hs
  rw [timedIngress]
  split_ifs
  · exact h
  · dsimp only
    split_ifs
    · exact hnote _ hprocess
    · exact hprocess

theorem noteReceiveProgress_cases (st : TimedStream) (stamp : Option (BitVec 32))
    (now : BitVec 32) :
    (tcpOptionsNoteReceiveProgress st stamp now).tsRecent = st.tsRecent ∨
      ∃ tsval, stamp = some tsval ∧ st.timestampsOk = true ∧
        (tcpOptionsNoteReceiveProgress st stamp now).tsRecent = tsval := by
  cases hused : st.timestampsOk <;> cases stamp <;> simp [tcpOptionsNoteReceiveProgress, hused]

/-- The stored timestamp is left alone, or the handler has advanced `recv_ack` and it is replaced
by that of the segment. -/
theorem timedIngress_cases (st : TimedStream) (seg : Segment) (stamp : Option (BitVec 32))
    (now : BitVec 32) :
    (timedIngress st seg stamp now).tsRecent = st.tsRecent ∨
      ∃ tsval, stamp = some tsval ∧ st.timestampsOk = true ∧ st.stream.status ≠ .closed ∧
        seg.rst = false ∧ (timedIngress st seg stamp now).tsRecent = tsval ∧
        (tcpIngress
          { st.stream with
            env := (tcpOptionsProcessInbound st stamp seg.seq (st.inWindow seg) now).1 ::
              st.stream.env
            tsNoted := false } seg).tsNoted = true := by
  obtain ⟨hstream, hok, hrecent⟩ := processInbound_frame st stamp seg.seq (st.inWindow seg) now
  rw [timedIngress]
  by_cases hskip : st.stream.status = .closed ∨ seg.rst = true
  · rw [if_pos hskip]
    exact .inl rfl
  · rw [if_neg hskip]
    rw [not_or, Bool.not_eq_true] at hskip
    simp only [hstream]
    split_ifs with hnoted
    · rcases noteReceiveProgress_cases _ stamp now with hkept | ⟨tsval, hstamp, hused, hnew⟩
      · exact .inl (hkept.trans hrecent)
      · exact .inr ⟨tsval, hstamp, hok.symm.trans hused, hskip.1, hskip.2, hnew, hnoted⟩
    · exact .inl hrecent

variable {seg : Segment} {now : BitVec 32}

/-- A timestamp older than a valid one is not stored if it is compared. -/
theorem older_not_noted {tsval : BitVec 32} (hok : st.timestampsOk = true) (hrst : seg.rst = false)
    (hvalid : (st.expire now).tsRecentValid = true) (holder : Serial.lt tsval st.tsRecent = true)
    (hstatus : st.stream.status = .established)
    (hright : Serial.lt seg.seq st.stream.rx.recvAck = false) :
    (tcpIngress
      { st.stream with
        env := (tcpOptionsProcessInbound st (some tsval) seg.seq (st.inWindow seg) now).1 ::
          st.stream.env
        tsNoted := false } seg).tsNoted = false := by
  have hopen : st.stream.status ≠ .closed := by
    rw [hstatus]
    decide
  cases haccept : tcpSegmentAcceptable st.stream.rx seg.seq seg.payload.length seg.fin with
  | true =>
    have hverdict : (tcpOptionsProcessInbound st (some tsval) seg.seq (st.inWindow seg) now).1 =
        2 := by
      obtain ⟨hrx, -, hrecent⟩ := expire_frame st now
      simp [tcpOptionsProcessInbound, TimedStream.inWindow, hok, hstatus, haccept, hrx, hright,
        hvalid, hrecent, holder]
    rw [hverdict]
    exact tcpIngress_stale rfl rfl hopen hrst (by simp [hstatus, haccept, hright])
  | false =>
    have hverdict : (tcpOptionsProcessInbound st (some tsval) seg.seq (st.inWindow seg) now).1 =
        0 := by
      simp [tcpOptionsProcessInbound, TimedStream.inWindow, hok, haccept]
    rw [hverdict]
    exact tcpIngress_outside rfl rfl hopen hrst hstatus haccept

theorem timedIngress_forward {stamp : Option (BitVec 32)} {w : Surroundings}
    (h : Compared st (.segment seg stamp now w)) :
    Serial.lt (timedIngress st seg stamp now).tsRecent st.tsRecent = false ∨
      st.timestampsOk = true ∧ (st.expire now).tsRecentValid = false := by
  rcases timedIngress_cases st seg stamp now with hsame | ⟨tsval, rfl, hok, -, hrst, hnew, hnoted⟩
  · left
    rw [hsame]
    simp [Serial.lt]
  · rw [hnew]
    by_cases hvalid : (st.expire now).tsRecentValid = true
    · left
      by_contra holder
      rw [Bool.not_eq_false] at holder
      obtain ⟨hstatus, hright⟩ := h hok hrst holder
      rw [older_not_noted hok hrst hvalid holder hstatus hright] at hnoted
      exact Bool.noConfusion hnoted
    · exact .inr ⟨hok, by simpa using hvalid⟩

theorem timedStep_kept (h : st.Kept) (e : TimedEvent) : (timedStep st e).Kept := by
  cases e with
  | call call w => exact h
  | segment seg stamp now w =>
    have hkept : TimedStream.Kept { st with stream := st.stream.within w } := h
    exact hkept.ingress seg stamp now

/-- In a run whose older segments are all compared, no segment moves the stored timestamp
backwards unless the idle rule has invalidated it, at this segment or an earlier one. -/
theorem ts_recent_forward {st : TimedStream} {e : TimedEvent}
    (hreach : timedSystem.Reach Compared st) (hcompared : Compared st e) :
    Serial.lt (timedStep st e).tsRecent st.tsRecent = false ∨
      ∃ seg stamp now w, e = .segment seg stamp now w ∧ (st.expire now).idled = true := by
  have hkept : st.Kept := by
    refine hreach.invariant (fun s hinit hok hinvalid => ?_) fun s e hs _ _ => timedStep_kept hs e
    rw [hinit.2.1, hok] at hinvalid
    exact Bool.noConfusion hinvalid
  cases e with
  | call call w =>
    left
    simp [timedStep, Serial.lt]
  | segment seg stamp now w =>
    have hstep : Compared { st with stream := st.stream.within w } (.segment seg stamp now w) := by
      cases stamp <;> exact hcompared
    rcases timedIngress_forward hstep with hforward | ⟨hok, hinvalid⟩
    · exact .inl hforward
    · refine .inr ⟨seg, stamp, now, w, rfl, hkept.expire now ?_ ?_⟩
      · exact (expire_frame st now).2.1.trans hok
      · rw [expire_setStream] at hinvalid
        exact hinvalid

/-- A connection with the timestamp 100 of the peer's SYN. -/
def stampedStream : TimedStream where
  stream :=
    { toScoreboard := tcpSackStateInit { sndUna := 0, sndMss := 4 } 0
      rx := { recvAck := 10 }
      sentSeq := 0
      sndbuf := tcpSndbufInit 0 }
  timestampsOk := true
  tsRecent := 100
  tsRecentValid := true
  tsRecentAge := 0

theorem stampedStream_run {ok : TimedStream → TimedEvent → Prop} (events : List TimedEvent)
    (h : timedSystem.Admissible ok stampedStream events) :
    timedSystem.Reach ok (timedSystem.run stampedStream events) := by
  have hinit : timedSystem.init stampedStream := ⟨rfl, rfl, rfl⟩
  exact (System.Reach.init hinit).run h

/-- Surroundings in which every allocation succeeds. -/
def roomy : Surroundings := { env := List.replicate 8 100, rxEnv := List.replicate 8 1 }

/-- The next byte in order, with an older timestamp. -/
def olderInOrder : TimedEvent :=
  .segment { seq := 14, ackNum := 0, ack := false, payload := [5] } (some 90) 2 roomy

/-- Four bytes in order, with a newer timestamp. -/
def firstFour : List TimedEvent :=
  [.segment { seq := 10, ackNum := 0, ack := false, payload := [1, 2, 3, 4] } (some 105) 1 roomy]

theorem ts_recent_forward_older_in_order :
    (timedSystem.run stampedStream firstFour).tsRecent = 105 ∧
      (timedStep (timedSystem.run stampedStream firstFour) olderInOrder).tsRecent = 105 ∧
      (Serial.lt (timedStep (timedSystem.run stampedStream firstFour) olderInOrder).tsRecent
          (timedSystem.run stampedStream firstFour).tsRecent = false ∨
        ∃ seg stamp now w, olderInOrder = .segment seg stamp now w ∧
          ((timedSystem.run stampedStream firstFour).expire now).idled = true) := by
  have hrun : timedSystem.Admissible Compared stampedStream firstFour := by decide +kernel
  have hcompared : Compared (timedSystem.run stampedStream firstFour) olderInOrder := by
    decide +kernel
  exact ⟨by decide +kernel, by decide +kernel,
    ts_recent_forward (stampedStream_run firstFour hrun) hcompared⟩

/-- A segment that starts left of `recv_ack` but ends behind it. -/
def olderOverlap : TimedEvent :=
  .segment { seq := 12, ackNum := 0, ack := false, payload := [3, 4, 5] } (some 90) 2 roomy

/-- The application closes, the FIN is sent and acknowledged, and a byte arrives. -/
def closedByUser : List TimedEvent :=
  [.call .close roomy, .call .flushControl roomy, .call .flushPayload roomy,
    .segment { seq := 10, ackNum := 1 } (some 105) 1 roomy,
    .segment { seq := 10, ackNum := 1, payload := [1] } (some 105) 1 roomy]

/-- The byte after it, with an older timestamp. -/
def olderAfterClose : TimedEvent :=
  .segment { seq := 11, ackNum := 1, payload := [5] } (some 90) 2 roomy

/-- An overlapping segment of the established state, and any segment of a closing state, moves the
stored timestamp back although it is valid. -/
theorem ts_recent_backward :
    (∃ st, timedSystem.Reach (fun _ _ => True) st ∧ st.stream.status = .established ∧
      st.tsRecent = 105 ∧ (st.expire 2).idled = false ∧
      (timedStep st olderOverlap).tsRecent = 90) ∧
    ∃ st, timedSystem.Reach (fun _ _ => True) st ∧ st.stream.status = .finWait2 ∧
      st.tsRecent = 105 ∧ (st.expire 2).idled = false ∧
      (timedStep st olderAfterClose).tsRecent = 90 := by
  constructor
  · exact ⟨_, stampedStream_run firstFour (by decide +kernel), by decide +kernel⟩
  · exact ⟨_, stampedStream_run closedByUser (by decide +kernel), by decide +kernel⟩

end Runs

end SnowTG.Tcp
