import SnowTG.Tcp.SenderRun

/-!
# What the sender guarantees

Results over every run of a sender: the bytes on the wire are those the
application appended, new data stays inside the peer's window, the sequence
space is accounted for, and an orderly close means that everything was
acknowledged.  The last three have exceptions, each with a run that shows it.
-/

namespace SnowTG.Tcp

open SnowTG.Lib List

variable {base : Seq} {st : SenderState}

section Sample

/-- A sender right after its handshake, with segments of four bytes and a window of ten. -/
def openSender (base : Seq) : SenderState where
  stream :=
    { toScoreboard := tcpSackStateInit { sndUna := base, sndMss := 4 } base
      rx := { recvAck := 0 }
      sentSeq := base
      sndbuf := tcpSndbufInit base
      sndWnd := 10
      sndWl2 := base
      sndWndValid := true
      nodelay := true }

theorem openSender_init (base : Seq) : (senderSystem base).init (openSender base) :=
  ⟨rfl, rfl, rfl, rfl, rfl, rfl, rfl, rfl, rfl, rfl, rfl, rfl, rfl, rfl, rfl⟩

/-- Surroundings that refuse nothing. -/
def willing : Surroundings := { env := List.replicate 16 100 }

/-- Surroundings of a segment that passes the timestamp check. -/
def passing : Surroundings := { env := 0 :: List.replicate 16 100 }

theorem openSender_run (base : Seq) (events : List SenderEvent)
    (h : (senderSystem base).Admissible (fun _ _ => True) (openSender base) events) :
    SenderReachable base ((senderSystem base).run (openSender base) events) :=
  (System.Reach.init (openSender_init base)).run h

/-- Ten bytes, eight of them in flight. -/
def eightInFlight : List SenderEvent :=
  [⟨.send [1, 2, 3, 4, 5, 6, 7, 8, 9, 10], willing⟩, ⟨.flushPayload, willing⟩,
    ⟨.flushPayload, willing⟩]

end Sample

section Flush

/-- Some run has the stream in this state after the application handed over `accepted`. -/
def Reaches (base : Seq) (accepted : List UInt8) (s : Stream) : Prop :=
  ∃ st, SenderReachable base st ∧ st.accepted = accepted ∧ st.stream = s

variable {accepted : List UInt8} {s : Stream}

theorem Reaches.pass (h : Reaches base accepted s) (call : SenderCall) (hcall : call.Allowed s)
    (hnil : (call.apply s).2 = []) : Reaches base accepted (call.apply s).1 := by
  obtain ⟨st, hreach, rfl, rfl⟩ := h
  let w : Surroundings := ⟨st.stream.env, st.stream.rx.env, st.stream.rx.owner⟩
  refine ⟨senderStep st ⟨call, w⟩, hreach.after _ hcall trivial, ?_, rfl⟩
  change st.accepted ++ (call.apply st.stream).2 = st.accepted
  rw [hnil, List.append_nil]

/-- A whole flush leads from a state of a run to a state of a run. -/
theorem tcpTxFlush_reaches (h : Reaches base accepted s) (rounds : Nat) :
    Reaches base accepted (tcpTxFlush rounds s).2 :=
  flush_invariant (fun _ hs => hs.pass .flushControl trivial rfl)
    (fun _ hs => hs.pass .flushRecovery trivial rfl)
    (fun _ hs => hs.pass .flushPayload trivial rfl) rounds h

/-- A flush of ten bytes. -/
theorem tcpTxFlush_reaches_ten :
    Reaches 0xfffffffe [1, 2, 3, 4, 5, 6, 7, 8, 9, 10] (tcpTxFlush 4
      ((senderSystem 0xfffffffe).run (openSender 0xfffffffe) (eightInFlight.take 1)).stream).2 :=
  tcpTxFlush_reaches ⟨_, openSender_run _ _ (by decide), by decide, rfl⟩ 4

end Flush

/-- Every data segment ever emitted carries the bytes the application appended at the position of
its sequence number. -/
theorem emitted_data_is_stream_data (h : SenderReachable base st) :
    ∀ em ∈ st.log, em.seg.payload ≠ [] →
      em.seg.seq = Serial.pos base em.off ∧
        em.off + em.seg.payload.length ≤ st.accepted.length ∧
        em.seg.payload = (st.accepted.drop em.off).take em.seg.payload.length := by
  intro em hem hne
  obtain ⟨hseq, hpre⟩ := (senderReachable_inv h).log.carries em hem hne
  refine ⟨hseq, ?_, prefix_iff_eq_take.mp hpre⟩
  have hlen := hpre.length_le
  have hpos := length_pos_of_ne_nil hne
  rw [length_drop] at hlen
  omega

/-- The second segment of a stream that starts two below the wrap. -/
theorem emitted_data_across_wrap :
    ((senderSystem 0xfffffffe).run (openSender 0xfffffffe) eightInFlight).log =
        [⟨0, { seq := 0xfffffffe, ack := 0, payload := [1, 2, 3, 4], optLen := 1 }⟩,
          ⟨4, { seq := 2, ack := 0, payload := [5, 6, 7, 8], optLen := 1 }⟩] ∧
      (2 : Seq) = Serial.pos 0xfffffffe 4 ∧ 4 + 4 ≤ 10 ∧
      ([5, 6, 7, 8] : List UInt8) = ([1, 2, 3, 4, 5, 6, 7, 8, 9, 10].drop 4).take 4 :=
  ⟨by decide,
    emitted_data_is_stream_data (openSender_run 0xfffffffe eightInFlight (by decide))
      ⟨4, { seq := 2, ack := 0, payload := [5, 6, 7, 8], optLen := 1 }⟩ (by decide) (by decide)⟩

/-- Every byte before `sent_seq`, hence every acknowledged one, has been on the wire at its own
sequence number. -/
theorem sent_bytes_were_on_wire (h : SenderReachable base st) :
    ∀ x < min st.sent st.accepted.length, ∃ em ∈ st.log, em.seg.seq = Serial.pos base em.off ∧
      em.off ≤ x ∧ em.seg.payload[x - em.off]? = st.accepted[x]? := by
  intro x hx
  have hlog := (senderReachable_inv h).log
  obtain ⟨em, hem, hle, hlt⟩ := hlog.covers x hx
  have hinside : x - em.off < em.seg.payload.length := by omega
  obtain ⟨hseq, hbytes⟩ := hlog.carries em hem (ne_nil_of_length_pos (Nat.zero_lt_of_lt hinside))
  refine ⟨em, hem, hseq, hle, ?_⟩
  obtain ⟨rest, hrest⟩ := hbytes
  calc em.seg.payload[x - em.off]? = (em.seg.payload ++ rest)[x - em.off]? :=
        (getElem?_append_left hinside).symm
    _ = st.accepted[x]? := by rw [hrest, getElem?_drop, Nat.add_sub_cancel' hle]

theorem sent_bytes_were_on_wire_seventh :
    ∃ em ∈ ((senderSystem 0xfffffffe).run (openSender 0xfffffffe) eightInFlight).log,
      em.seg.seq = Serial.pos 0xfffffffe em.off ∧ em.off ≤ 6 ∧
        em.seg.payload[6 - em.off]? = some 7 :=
  sent_bytes_were_on_wire (openSender_run 0xfffffffe eightInFlight (by decide)) 6 (by decide)

section FlowControl

/-- The segments a step put on the wire. -/
def Stream.newSegs (s t : Stream) : List WireSeg := t.out.drop s.out.length

/-- The outstanding bytes are charged by the scoreboard's estimate, not by their number. -/
def Stream.chargesPipe (s : Stream) : Prop := s.mode = .sack ∨ s.limitedTransmit = true

instance (s : Stream) : Decidable s.chargesPipe :=
  inferInstanceAs (Decidable (s.mode = .sack ∨ s.limitedTransmit = true))

theorem congestionInFlight_of_not {s : Stream} (h : ¬s.chargesPipe) :
    (congestionInFlight s).1 = (s.sentSeq - s.sndUna).toNat := by
  rw [congestionInFlight, if_neg (show ¬(s.mode = .sack ∨ s.limitedTransmit = true) from h)]

theorem mem_newSegs_of_payload {s m t : Stream} {seg new : WireSeg} (hout : m.out = s.out ++ [seg])
    (hquiet : m.Quiet t) (hnew : new ∈ s.newSegs t) (hne : new.payload ≠ []) : new = seg := by
  obtain ⟨segs, hout', hempty⟩ := hquiet
  rw [Stream.newSegs, hout', hout, append_assoc, drop_left] at hnew
  rcases mem_cons.mp hnew with hnew | hnew
  · exact hnew
  · exact absurd (hempty new hnew) hne

/-- New data ends inside the buffered bytes, and inside the window beside the bytes charged. -/
theorem flushSndbuf_bounds (h : st.Inv base) (w : Surroundings) {seg : WireSeg}
    (hseg : seg ∈ st.stream.newSegs (tcpTxFlushSndbuf (st.stream.within w)).2)
    (hne : seg.payload ≠ []) :
    seg.seq = st.stream.sentSeq ∧
      (seg.seq - st.stream.sndUna).toNat + seg.payload.length ≤ st.stream.sndbuf.len ∧
      seg.payload.length ≤ st.stream.sndWnd - (congestionInFlight (st.stream.within w)).1 := by
  have hout : (st.stream.within w).out = st.stream.out := rfl
  have hbounds : ∀ (m : Stream) (new : WireSeg), (st.stream.within w).Sent m new →
      new.seq = st.stream.sentSeq ∧
        (new.seq - st.stream.sndUna).toNat + new.payload.length ≤ st.stream.sndbuf.len := by
    intro m new hsent
    obtain ⟨hgone, off, hnear, htag, -, hend, -⟩ :=
      h.emitted ((within_steady st.stream w).emitted hsent.toEmitted hout)
    have hlen := (h.books hgone).len
    have hoff : st.una + (new.seq - st.stream.sndUna).toNat = off := congrArg Emission.off htag
    exact ⟨hsent.seq, by omega⟩
  have hcases := flushSndbuf_outcome (st.stream.within w)
  generalize tcpTxFlushSndbuf (st.stream.within w) = result at hseg hcases
  cases hcases with
  | steady result hsteady hsame =>
    rw [Stream.newSegs, hsame, hout, drop_length] at hseg
    exact absurd hseg not_mem_nil
  | @sent t new hsent hbound =>
    obtain rfl := mem_newSegs_of_payload hsent.out (.of_eq rfl) hseg hne
    exact ⟨(hbounds t _ hsent).1, (hbounds t _ hsent).2, hbound⟩
  | @destroyed m t new hsent hbound haborted =>
    obtain rfl := mem_newSegs_of_payload hsent.out haborted.quiet hseg hne
    exact ⟨(hbounds m _ hsent).1, (hbounds m _ hsent).2, hbound⟩

/-- New data stays inside the peer's window when the outstanding bytes are charged by their number,
or when everything buffered fits the window. -/
theorem new_data_within_window (h : SenderReachable base st)
    (hcharge : st.stream.chargesPipe → st.stream.sndbuf.len ≤ st.stream.sndWnd)
    (w : Surroundings) :
    ∀ seg ∈ st.stream.newSegs (tcpTxFlushSndbuf (st.stream.within w)).2, seg.payload ≠ [] →
      (seg.seq - st.stream.sndUna).toNat + seg.payload.length ≤ st.stream.sndWnd := by
  intro seg hseg hne
  obtain ⟨hseq, hbuffered, hbound⟩ := flushSndbuf_bounds (senderReachable_inv h) w hseg hne
  by_cases hpipe : st.stream.chargesPipe
  · exact hbuffered.trans (hcharge hpipe)
  · have hcharged : (congestionInFlight (st.stream.within w)).1 =
        (st.stream.sentSeq - st.stream.sndUna).toNat := congestionInFlight_of_not hpipe
    have hpos := length_pos_of_ne_nil hne
    rw [hcharged, ← hseq] at hbound
    omega

/-- The first four of ten bytes, with an open window. -/
theorem first_segment_within_window :
    let st := (senderSystem 0).run (openSender 0) (eightInFlight.take 1)
    let seg : WireSeg := { seq := 0, ack := 0, payload := [1, 2, 3, 4], optLen := 1 }
    seg ∈ st.stream.newSegs (tcpTxFlushSndbuf (st.stream.within willing)).2 ∧
      (seg.seq - st.stream.sndUna).toNat + seg.payload.length ≤ st.stream.sndWnd :=
  ⟨by decide,
    new_data_within_window (openSender_run 0 (eightInFlight.take 1) (by decide))
      (by decide) willing _ (by decide) (by decide)⟩

/-- A duplicate acknowledgement that reports the second segment and shrinks the window to five
bytes. -/
def shrinkingSack : Segment := { seq := 0, ackNum := 0, window := 5, sacks := [⟨4, 8⟩] }

/-- Limited transmit sends the ninth byte into a window of five: only the four bytes not reported
are charged. -/
theorem limited_transmit_exceeds_window :
    ∃ st, SenderReachable 0 st ∧
      ∃ seg ∈ st.stream.newSegs (tcpTxFlushSndbuf (st.stream.within willing)).2,
        seg.payload ≠ [] ∧ st.stream.sndWnd = 5 ∧ (seg.seq - st.stream.sndUna).toNat = 8 :=
  ⟨_, openSender_run 0 (eightInFlight ++ [⟨.segment shrinkingSack, passing⟩]) (by decide),
    { seq := 8, ack := 0, payload := [9], optLen := 1 }, by decide⟩

end FlowControl

section Accounting

/-- The flight of a stream is accounted for: its ends are in order, it lies in the buffer, the
buffer starts at `snd_una` until the FIN is acknowledged, and every flight size reported on an
acknowledgement counts buffered bytes. -/
structure SenderState.Accounts (st : SenderState) : Prop where
  una_le : Serial.leq st.stream.sndUna (tcpSackPayloadFlightEnd st.stream) = true
  le_sent : Serial.leq (tcpSackPayloadFlightEnd st.stream) st.stream.sentSeq = true
  unacked_le : st.stream.sndbuf.unacked ≤ st.stream.sndbuf.len
  head : st.una ≤ st.accepted.length → st.stream.sndbuf.headSeq = st.stream.sndUna
  flight : ∀ (w : Surroundings) (ack : Seq) (sacks : List SackBlock) (classicDup applyWindow : Bool)
    (segSeq : Seq) (segWnd : BitVec 16) (scale : Nat),
    ∀ size ∈ (tcpProcessPeerAckEx (st.stream.within w) ack sacks classicDup applyWindow segSeq
      segWnd scale).2.ccFlights.drop st.stream.ccFlights.length, size ≤ st.stream.sndbuf.unacked

/-- The end of the flight is the position behind the last byte sent. -/
theorem SenderState.Inv.flightEnd (h : st.Inv base) (hgone : st.stream.status.phase ≠ .gone) :
    tcpSackPayloadFlightEnd st.stream = Serial.pos base (min st.sent st.accepted.length) := by
  have hbooks := h.books hgone
  have hiff := hbooks.lt_bufEnd_iff
  rw [← h.sentSeq] at hiff
  rw [tcpSackPayloadFlightEnd]
  split_ifs with hlt
  · rw [h.sentSeq, min_eq_left (hiff.mp hlt).le]
  · rw [hbooks.bufEnd, min_eq_right (Nat.le_of_not_lt fun hshort => hlt (hiff.mpr hshort))]

theorem SenderState.Inv.flightEnd_gone (h : st.Inv base) (hgone : st.stream.status.phase = .gone) :
    tcpSackPayloadFlightEnd st.stream = st.stream.sentSeq := by
  rw [tcpSackPayloadFlightEnd, h.empty hgone]
  simp [tcpSndbufInit]

theorem armOrAbort_ccFlights (s : Stream) (sendReset : Bool) :
    (armOrAbort s sendReset).2.ccFlights = s.ccFlights := by
  simp only [armOrAbort, tcpArmTimer, tcpAbortStream, tcpTrySendAbortReset]
  by_cases harmed : s.ask.1 = 0
  · rw [if_pos harmed]
    dsimp only
    split_ifs <;> rfl
  · rw [if_neg harmed]
    rfl

theorem ackTimer_ccFlights (s : Stream) (progressed : Bool) :
    (ackTimer s progressed).2.ccFlights = s.ccFlights := by
  simp only [ackTimer]
  split_ifs
  · rfl
  · exact armOrAbort_ccFlights _ _
  · rfl

/-- What an acknowledgement reports is the size of the flight before it. -/
theorem ackAccept_ccFlights (s : Stream) (ack : Seq) (sacks : List SackBlock) (classicDup : Bool) :
    ∃ sizes, (ackAccept s ack sacks classicDup).2.ccFlights = s.ccFlights ++ sizes ∧
      ∀ size ∈ sizes, size = (tcpSackPayloadFlightEnd s - s.sndUna).toNat := by
  have hretire : (ackRetire s ack).ccFlights = s.ccFlights := by
    rw [ackRetire]
    split_ifs <;> rfl
  simp only [ackAccept, ackTimer_ccFlights, hretire]
  refine ⟨_, rfl, fun size hsize => ?_⟩
  split_ifs at hsize
  · simpa using hsize
  · simpa using hsize

theorem processPeerAckEx_ccFlights (s : Stream) (ack : Seq) (sacks : List SackBlock)
    (classicDup applyWindow : Bool) (segSeq : Seq) (segWnd : BitVec 16) (scale : Nat) :
    ∀ size ∈ (tcpProcessPeerAckEx s ack sacks classicDup applyWindow segSeq segWnd
        scale).2.ccFlights.drop s.ccFlights.length,
      size = (tcpSackPayloadFlightEnd s - s.sndUna).toNat := by
  have haccept : ∀ t : Stream, t.ccFlights = s.ccFlights → t.sndUna = s.sndUna →
      tcpSackPayloadFlightEnd t = tcpSackPayloadFlightEnd s →
      ∀ size ∈ (ackAccept t ack sacks classicDup).2.ccFlights.drop s.ccFlights.length,
        size = (tcpSackPayloadFlightEnd s - s.sndUna).toNat := by
    intro t hflights huna hend size hsize
    obtain ⟨sizes, heq, hsizes⟩ := ackAccept_ccFlights t ack sacks classicDup
    rw [heq, hflights, drop_left] at hsize
    rw [hsizes size hsize, huna, hend]
  rw [tcpProcessPeerAckEx]
  split_ifs
  · simp
  · refine haccept _ ?_ ?_ ?_ <;> rw [tcpUpdateSndWndLocal] <;> split_ifs <;> rfl
  · exact haccept s rfl rfl rfl

/-- Positions of the flight before the FIN is acknowledged. -/
theorem SenderState.Inv.accounts (h : st.Inv base) (hgone : st.stream.status.phase ≠ .gone)
    (huna : st.una ≤ st.accepted.length) : st.Accounts := by
  have hbooks := h.books hgone
  have hle := hbooks.una_le
  have hlen := hbooks.len
  have hfits : st.stream.sndbuf.len ≤ 65536 := hbooks.fits
  have hunacked := hbooks.unacked
  have hend := h.flightEnd hgone
  have hhere : Near st.una st.una := ⟨le_rfl, by omega⟩
  have hflight : Near st.una (min st.sent st.accepted.length) := ⟨by omega, by omega⟩
  have hsize : (tcpSackPayloadFlightEnd st.stream - st.stream.sndUna).toNat =
      st.stream.sndbuf.unacked := by
    rw [hend, h.sndUna, Serial.Near.toNat_sub base hflight hhere hflight.1, hunacked]
    omega
  refine ⟨?_, ?_, by omega, fun _ => ?_, ?_⟩
  · rw [hend, h.sndUna, Serial.Near.leq_iff base hhere hflight]
    omega
  · rw [hend, h.sentSeq, Serial.Near.leq_iff base hflight h.near]
    omega
  · rw [hbooks.headSeq, h.sndUna, min_eq_left huna]
  · intro w ack sacks classicDup applyWindow segSeq segWnd scale size hmem
    have heq := processPeerAckEx_ccFlights (st.stream.within w) ack sacks classicDup applyWindow
      segSeq segWnd scale size hmem
    exact (heq.trans hsize).le

theorem SenderState.Inv.accounts_gone (h : st.Inv base)
    (hgone : st.stream.status.phase = .gone) : st.Accounts := by
  have hend := h.flightEnd_gone hgone
  have hfin := h.fin
  rw [hgone] at hfin
  have huna : st.stream.sndUna = st.stream.sentSeq := by
    rw [h.sndUna, h.sentSeq, show st.una = st.sent from hfin]
  have hempty := h.empty hgone
  refine ⟨by rw [hend, huna]; simp [Serial.leq], by rw [hend]; simp [Serial.leq], ?_, fun _ => ?_, ?_⟩
  · rw [hempty]
    exact le_refl 0
  · rw [hempty, huna]
    rfl
  · intro w ack sacks classicDup applyWindow segSeq segWnd scale size hmem
    have heq := processPeerAckEx_ccFlights (st.stream.within w) ack sacks classicDup applyWindow
      segSeq segWnd scale size hmem
    have hsize : (tcpSackPayloadFlightEnd st.stream - st.stream.sndUna).toNat = 0 := by
      rw [hend, huna, BitVec.sub_self, BitVec.toNat_zero]
    exact (heq.trans hsize).le.trans zero_le

theorem phase_acked_iff {status : Status} :
    status.phase = .acked ↔ status = .finWait2 ∨ status = .timeWait := by
  cases status <;> decide

/-- The flight is accounted for exactly until the FIN is acknowledged. -/
theorem accounts_iff_fin_unacked (h : SenderReachable base st) :
    st.Accounts ↔ ¬((st.stream.status = .finWait2 ∨ st.stream.status = .timeWait) ∧
      st.stream.finDeferred = false) := by
  have hinv := senderReachable_inv h
  have hfin := hinv.fin
  rw [← phase_acked_iff]
  constructor
  · rintro haccounts ⟨hphase, hdeferred⟩
    have hgone : st.stream.status.phase ≠ .gone := by rw [hphase]; decide
    rw [hphase] at hfin
    rcases hfin with ⟨hwaits, -⟩ | ⟨-, hsent, huna⟩
    · rw [hdeferred] at hwaits
      exact absurd hwaits (by decide)
    · have hle := haccounts.una_le
      have hlast : Near st.accepted.length st.accepted.length := ⟨le_rfl, by omega⟩
      have hnext : Near st.accepted.length (st.accepted.length + 1) := ⟨by omega, by omega⟩
      rw [hinv.flightEnd hgone, hinv.sndUna, hsent, huna, min_eq_right (Nat.le_succ _),
        Serial.Near.leq_iff base hnext hlast] at hle
      omega
  · intro hnot
    by_cases hgone : st.stream.status.phase = .gone
    · exact hinv.accounts_gone hgone
    · have hbooks := hinv.books hgone
      have hle := hbooks.una_le
      refine hinv.accounts hgone ?_
      cases hphase : st.stream.status.phase with
      | opening => exact absurd hphase hinv.not_opening
      | gone => exact absurd hphase hgone
      | sending =>
        rw [hphase] at hfin
        exact hle.trans hfin.2
      | closing =>
        rw [hphase] at hfin
        rcases hfin with ⟨-, hsent⟩ | ⟨-, -, huna⟩
        · exact hle.trans hsent
        · exact huna
      | acked =>
        rw [hphase] at hfin
        rcases hfin with ⟨-, hsent⟩ | ⟨hdeferred, -, -⟩
        · exact hle.trans hsent
        · exact absurd ⟨hphase, hdeferred⟩ hnot

theorem accounts_of_eight_in_flight :
    ((senderSystem 0xfffffffe).run (openSender 0xfffffffe) eightInFlight).Accounts :=
  (accounts_iff_fin_unacked (openSender_run 0xfffffffe eightInFlight (by decide))).mpr (by decide)

/-- Close an idle connection, have the FIN acknowledged, and receive the acknowledgement again. -/
def ackedTwice : List SenderEvent :=
  [⟨.close, willing⟩, ⟨.segment { seq := 0, ackNum := 1 }, passing⟩,
    ⟨.segment { seq := 0, ackNum := 1 }, passing⟩]

/-- In FIN_WAIT_2 the flight ends before `snd_una`, and its size wraps. -/
theorem finWait2_flight_wraps :
    ∃ st, SenderReachable 0 st ∧ st.stream.status = .finWait2 ∧ st.stream.sndbuf.len = 0 ∧
      Serial.leq st.stream.sndUna (tcpSackPayloadFlightEnd st.stream) = false ∧
      st.stream.ccFlights = [0, 2 ^ 32 - 1] :=
  ⟨_, openSender_run 0 ackedTwice (by decide), by decide⟩

end Accounting

section Close

/-- The FIN was placed and this acknowledgement covers it: then every accepted byte was transmitted,
and all of them are acknowledged. -/
structure SenderState.ClosedBy (base : Seq) (st : SenderState) (seg : Segment)
    (w : Surroundings) : Prop where
  placed : st.sent = st.accepted.length + 1
  ack : seg.ack = true
  covered : seg.ackNum = Serial.pos base (st.accepted.length + 1)
  transmitted : ∀ x < st.accepted.length, ∃ em ∈ st.log, em.Covers x ∧ em.Carries base st.accepted
  acknowledged : (senderStep st ⟨.segment seg, w⟩).una = st.accepted.length + 1

/-- The acknowledgement of `sent_seq` with the FIN placed. -/
theorem SenderState.Inv.closedBy (h : st.Inv base) {seg : Segment} {w : Surroundings}
    (hclosing : st.stream.status.phase = .closing) (hplaced : st.stream.finDeferred = false)
    (hack : seg.ack = true) (hlast : seg.ackNum = st.stream.sentSeq)
    (huna : (senderStep st ⟨.segment seg, w⟩).una = st.sent) : st.ClosedBy base seg w := by
  have hfin := h.fin
  rw [hclosing, hplaced] at hfin
  obtain ⟨habsurd, -⟩ | ⟨-, hsent, -⟩ := hfin
  · exact absurd habsurd (by decide)
  · refine ⟨hsent, hack, by rw [hlast, h.sentSeq, hsent], fun x hx => ?_, huna.trans hsent⟩
    obtain ⟨em, hem, hcovers⟩ := h.log.covers x (by omega)
    refine ⟨em, hem, hcovers, h.log.carries em hem fun hnil => ?_⟩
    have hlt := hcovers.2
    rw [hnil] at hlt
    exact absurd hcovers.1 (Nat.not_le_of_lt hlt)

/-- Where an acknowledgement takes a stream that waits for the acknowledgement of its FIN. -/
def Stream.ClosesTo (t : Stream) : Prop :=
  t.status = .finWait2 ∨ t.status = .timeWait ∨ (t.status = .closed ∧ t.terminalError = 0)

/-- Unless `sent_seq` is acknowledged while the FIN is deferred, only the acknowledgement of the
FIN closes the sending direction. -/
theorem orderly_close (h : SenderReachable base st) (w : Surroundings) (seg : Segment)
    (hclosing : st.stream.status = .finWait1 ∨ st.stream.status = .closing ∨
      st.stream.status = .lastAck)
    (hplaced : ¬(st.stream.finDeferred = true ∧ seg.ack = true ∧
      seg.ackNum = st.stream.sentSeq))
    (hmoved : (tcpIngress (st.stream.within w) seg).ClosesTo) : st.ClosedBy base seg w := by
  have hinv := senderReachable_inv h
  have hphase : st.stream.status.phase = .closing := by
    rcases hclosing with hstatus | hstatus | hstatus <;> rw [hstatus] <;> rfl
  have hleft : (tcpIngress (st.stream.within w) seg).status.phase ≠ .closing := by
    rcases hmoved with hstatus | hstatus | ⟨hstatus, -⟩ <;> rw [hstatus] <;> decide
  have houtcome : st.stream.SegmentOutcome seg (tcpIngress (st.stream.within w) seg) :=
    (within_steady st.stream w).segmentOutcome (tcpIngress_outcome hinv.order)
  generalize ht : tcpIngress (st.stream.within w) seg = t at hmoved hleft houtcome
  have hstep : (senderStep st ⟨.segment seg, w⟩).una = (st.follow t).una := by rw [← ht]; rfl
  have hclosed : seg.ack = true → seg.ackNum = st.stream.sentSeq →
      t.sndUna = Serial.pos base st.sent → _ := fun hack hlast huna =>
    hinv.closedBy hphase (Bool.eq_false_iff.mpr fun hwaits => hplaced ⟨hwaits, hack, hlast⟩) hack
      hlast (hstep.trans (SenderState.follow_una hinv.sndUna hinv.near huna))
  cases houtcome with
  | steady hsteady => exact absurd (hsteady.phase.trans hphase) hleft
  | acked _ hsame _ => exact absurd (hsame.trans hphase) hleft
  | finAcked _ hack hlast hacked hafter =>
    exact hclosed hack hlast ((hacked.sndUna.trans hlast).trans hinv.sentSeq)
  | finished _ hack hlast hdrained =>
    exact hclosed hack hlast (hdrained.sndUna.trans hinv.sentSeq)
  | aborted haborted =>
    rcases hmoved with hstatus | hstatus | ⟨-, herror⟩
    · exact absurd (haborted.status.symm.trans hstatus) (by decide)
    · exact absurd (haborted.status.symm.trans hstatus) (by decide)
    · exact absurd herror haborted.error

/-- Two bytes and a FIN in flight. -/
def closedAfterTwo : List SenderEvent :=
  [⟨.send [1, 2], willing⟩, ⟨.flushPayload, willing⟩, ⟨.close, willing⟩]

theorem orderly_close_after_two :
    ((senderSystem 0).run (openSender 0) closedAfterTwo).ClosedBy 0 { seq := 0, ackNum := 3 }
      passing :=
  orderly_close (openSender_run 0 closedAfterTwo (by decide)) passing { seq := 0, ackNum := 3 }
    (by decide) (by decide) (.inl (by decide))

/-- With the FIN deferred behind two bytes that were never sent, a segment that acknowledges
nothing new takes the stream to FIN_WAIT_2. -/
theorem deferred_fin_closes_unsent :
    ∃ st, SenderReachable 0 st ∧ st.stream.status = .finWait1 ∧ st.accepted = [1, 2] ∧
      st.log = [] ∧ st.sent = 0 ∧
      (tcpIngress (st.stream.within passing) { seq := 0, ackNum := 0 }).status = .finWait2 :=
  ⟨_, openSender_run 0 [⟨.send [1, 2], willing⟩, ⟨.close, willing⟩] (by decide), by decide⟩

end Close

end SnowTG.Tcp
