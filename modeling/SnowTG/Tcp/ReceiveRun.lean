import SnowTG.Lib.System
import SnowTG.Tcp.ReceiveInvariant
import SnowTG.Tcp.Transmit

/-!
# Runs of the receiver

A stream that takes segments from a peer while the application reads.  The
handlers around the receive path, `tcp_apply_peer_eof` and the acknowledgements
included, leave what was received alone or abort the connection; the bytes read
are a prefix of what the peer sent in every run.
-/

namespace SnowTG.Tcp

open SnowTG.Lib List Option

variable {S : PeerStream} {held : Option RxBlob} {got : List UInt8} {k : Nat} {s t u : Stream}
  {status : Status} {seg : Segment}

/-- Nothing the reader or the reassembly works on has changed. -/
structure Stream.SameReader (s t : Stream) : Prop where
  rx : s.rx.SameReader t.rx
  ofo : t.rx.ofo = s.rx.ofo
  status : t.status = s.status
  terminalError : t.terminalError = s.terminalError

theorem Stream.SameReader.of_rx (hrx : t.rx = s.rx) (hstatus : t.status = s.status)
    (herror : t.terminalError = s.terminalError) : s.SameReader t :=
  ⟨by rw [hrx]; exact .refl _, by rw [hrx], hstatus, herror⟩

theorem Stream.SameReader.refl (s : Stream) : s.SameReader s := .of_rx rfl rfl rfl

theorem Stream.SameReader.trans (h : s.SameReader t) (h' : t.SameReader u) : s.SameReader u :=
  ⟨h.rx.trans h'.rx, h'.ofo.trans h.ofo, h'.status.trans h.status,
    h'.terminalError.trans h.terminalError⟩

/-- The connection was aborted; the receive position is still on record. -/
structure Stream.Reset (s t : Stream) : Prop where
  status : t.status = .closed
  error : t.terminalError ≠ 0
  recvAck : t.rx.recvAck = s.rx.recvAck
  peerEof : t.rx.peerEof = s.rx.peerEof

theorem Stream.SameReader.reset (h : s.SameReader t) (h' : t.Reset u) : s.Reset u :=
  ⟨h'.status, h'.error, h'.recvAck.trans h.rx.recvAck, h'.peerEof.trans h.rx.peerEof⟩

/-- A fallible step that leaves the reader alone unless it aborts. -/
def Stream.KeepsReader (s : Stream) (result : Bool × Stream) : Prop :=
  (result.1 = true ∧ s.SameReader result.2) ∨ (result.1 = false ∧ s.Reset result.2)

theorem Stream.SameReader.keeps {result : Bool × Stream} (h : s.SameReader t)
    (h' : t.KeepsReader result) : s.KeepsReader result := by
  rcases h' with ⟨hok, hsame⟩ | ⟨hok, hreset⟩
  · exact .inl ⟨hok, h.trans hsame⟩
  · exact .inr ⟨hok, h.reset hreset⟩

theorem ask_sameReader (s : Stream) : s.SameReader s.ask.2 := .of_rx rfl rfl rfl

theorem armTimer_sameReader (s : Stream) : s.SameReader (tcpArmTimer s).2 := by
  simp only [tcpArmTimer]
  split_ifs <;> exact .of_rx rfl rfl rfl

theorem tcpDrainRecv_rx (s : Stream) : (tcpDrainRecv s).rx.recvAck = s.rx.recvAck ∧
    (tcpDrainRecv s).rx.peerEof = s.rx.peerEof := by
  have hpurge := purge_sameReader { s.rx with rxQueue := [], rxCurrent := none }
  exact ⟨hpurge.recvAck, hpurge.peerEof⟩

/-- An abort closes the stream and leaves the receive position on record. -/
theorem tcpAbortStream_reset (s : Stream) {error : Nat} (herror : error ≠ 0) (sendReset : Bool) :
    s.Reset (tcpAbortStream s error sendReset) := by
  have hdrain : ∀ t : Stream, t.rx = s.rx → s.Reset
      { tcpDrainRecv (tcpDrainSend { t with status := .closed }) with
        terminalError := error
        freed := t.freed || t.appClosed || s.status = .synRecv } := by
    intro t hrx
    obtain ⟨hack, heof⟩ := tcpDrainRecv_rx (tcpDrainSend { t with status := .closed })
    exact ⟨rfl, herror, hack.trans (congrArg Rx.recvAck hrx), heof.trans (congrArg Rx.peerEof hrx)⟩
  simp only [tcpAbortStream, tcpTrySendAbortReset]
  split_ifs <;> exact hdrain _ rfl

theorem armOrAbort_keeps (s : Stream) (sendReset : Bool) :
    s.KeepsReader (armOrAbort s sendReset) := by
  have harm := armTimer_sameReader s
  rw [armOrAbort]
  generalize tcpArmTimer s = result at harm ⊢
  obtain ⟨armed, t⟩ := result
  cases armed with
  | true => exact .inl ⟨rfl, harm⟩
  | false => exact .inr ⟨rfl, harm.reset (tcpAbortStream_reset t (by decide) sendReset)⟩

theorem enqueueFragment_sameReader (s : Stream) (fin : Bool) (seq : Seq) :
    s.SameReader (tcpEnqueueFragment s fin seq).2 := by
  have hoptions : s.SameReader (tcpOptionsApplyEstablished s.ask.2).2 :=
    ⟨⟨rfl, rfl, rfl, rfl, rfl⟩, rfl, rfl, rfl⟩
  have henqueue : ∀ (t : Stream) (f : Fragment), t.SameReader (nsockTcpTxEnqueue t f).2 := by
    intro t f
    simp only [nsockTcpTxEnqueue]
    split_ifs <;> exact .of_rx rfl rfl rfl
  simp only [tcpEnqueueFragment]
  split_ifs
  · exact ask_sameReader s
  · exact hoptions.trans (henqueue _ _)

theorem ackTimer_keeps (s : Stream) (progressed : Bool) :
    s.KeepsReader (ackTimer s progressed) := by
  simp only [ackTimer]
  split_ifs
  · exact .inl ⟨rfl, .of_rx rfl rfl rfl⟩
  · have hset : s.SameReader { s with retries := 0 } := .of_rx rfl rfl rfl
    exact hset.keeps (armOrAbort_keeps _ true)
  · exact .inl ⟨rfl, .refl s⟩

theorem ackAccept_keeps (s : Stream) (ack : Seq) (sacks : List SackBlock) (classicDup : Bool) :
    s.KeepsReader (ackAccept s ack sacks classicDup) := by
  have hretire : s.SameReader (ackRetire s ack) := by
    rw [ackRetire]
    split_ifs <;> exact .of_rx rfl rfl rfl
  rw [ackAccept]
  refine (hretire.trans ?_).keeps (ackTimer_keeps _ _)
  exact .of_rx rfl rfl rfl

/-- Acknowledgements do not concern the receiver. -/
theorem processPeerAckEx_keeps (s : Stream) (ack : Seq) (sacks : List SackBlock)
    (classicDup applyWindow : Bool) (segSeq : Seq) (segWnd : BitVec 16) (scale : Nat) :
    s.KeepsReader (tcpProcessPeerAckEx s ack sacks classicDup applyWindow segSeq segWnd scale) := by
  have hwindow : s.SameReader (tcpUpdateSndWndLocal s segSeq ack segWnd scale) := by
    rw [tcpUpdateSndWndLocal]
    split_ifs <;> exact .of_rx rfl rfl rfl
  rw [tcpProcessPeerAckEx]
  split_ifs
  · exact .inl ⟨rfl, .refl s⟩
  · exact hwindow.keeps (ackAccept_keeps _ _ _ _)
  · exact ackAccept_keeps _ _ _ _

/-- The states in which a stream receives before the application closes it, or waits for the peer
to close. -/
def Status.receives : Status → Bool
  | .established | .closeWait | .finWait1 | .finWait2 | .closing | .timeWait => true
  | _ => false

/-- A stream that has accepted `k` bytes and returned `got`; the application is reading `held`. -/
structure Receiving (S : PeerStream) (held : Option RxBlob) (got : List UInt8) (k : Nat)
    (s : Stream) : Prop where
  rx : RxInv S held got k s.rx
  receives : s.status.receives = true
  consumed : s.status.peerFinConsumed = s.rx.peerEof
  error : s.terminalError = 0

/-- A stream whose connection was aborted after it had returned `got`. -/
structure Broken (S : PeerStream) (got : List UInt8) (s : Stream) : Prop where
  status : s.status = .closed
  error : s.terminalError ≠ 0
  position : ∃ k, k ≤ S.data.length ∧ got <+: S.data.take k ∧
    s.rx.recvAck = Serial.pos S.irs (k + if s.rx.peerEof then 1 else 0) ∧
    (s.rx.peerEof = true → S.fin = true ∧ k = S.data.length)

theorem Receiving.sameReader (h : Receiving S held got k s) (hsame : s.SameReader t) :
    Receiving S held got k t := by
  refine ⟨h.rx.of_sameReader hsame.rx hsame.ofo, by rw [hsame.status]; exact h.receives, ?_,
    hsame.terminalError.trans h.error⟩
  · rw [hsame.status, hsame.rx.peerEof]
    exact h.consumed

theorem RxInv.reset (h : RxInv S held got k s.rx) (hreset : s.Reset t) : Broken S got t := by
  refine ⟨hreset.status, hreset.error, k, h.inside, ?_, ?_, ?_⟩
  · rw [← h.bytes]
    exact prefix_append _ _
  · rw [hreset.recvAck, hreset.peerEof]
    exact h.ack
  · rw [hreset.peerEof]
    exact fun heof => ⟨(h.eof heof).1, (h.eof heof).2.1⟩

/-- The outcome of a fallible step on the receive side. -/
def ReceiveOk (S : PeerStream) (held : Option RxBlob) (got : List UInt8) (result : Bool × Stream) : Prop :=
  (result.1 = true ∧ ∃ k, Receiving S held got k result.2) ∨ (result.1 = false ∧ Broken S got result.2)

/-- A stream is receiving or was aborted. -/
def ReceiverOk (S : PeerStream) (held : Option RxBlob) (got : List UInt8) (s : Stream) : Prop :=
  (∃ k, Receiving S held got k s) ∨ Broken S got s

theorem Receiving.ok (h : Receiving S held got k s) : ReceiverOk S held got s := .inl ⟨k, h⟩

theorem ReceiveOk.ok {result : Bool × Stream} (h : ReceiveOk S held got result) :
    ReceiverOk S held got result.2 := by
  rcases h with ⟨-, h⟩ | ⟨-, h⟩
  · exact .inl h
  · exact .inr h

/-- Go on behind an acknowledgement or a timer. -/
theorem Receiving.unlessAborted (h : Receiving S held got k s) {result : Bool × Stream}
    (hkeeps : s.KeepsReader result) {next : Stream → Stream}
    (hnext : ∀ t, s.SameReader t → Receiving S held got k t → ReceiverOk S held got (next t)) :
    ReceiverOk S held got (unlessAborted result next) := by
  obtain ⟨ok, t⟩ := result
  rcases hkeeps with ⟨hok, hsame⟩ | ⟨hok, hreset⟩
  · obtain rfl : ok = true := hok
    exact hnext t hsame (h.sameReader hsame)
  · obtain rfl : ok = false := hok
    exact .inr (h.rx.reset hreset)

/-- A change of state that agrees with what was received. -/
theorem ReceiveOk.of_status (hrx : RxInv S held got k s.rx) (herror : s.terminalError = 0)
    (hreceives : status.receives = true) (hconsumed : status.peerFinConsumed = s.rx.peerEof)
    {result : Bool × Stream} (hkeeps : { s with status := status }.KeepsReader result) :
    ReceiveOk S held got result := by
  have hreceiving : Receiving S held got k { s with status := status } :=
    ⟨hrx, hreceives, hconsumed, herror⟩
  rcases hkeeps with ⟨hok, hsame⟩ | ⟨hok, hreset⟩
  · exact .inl ⟨hok, k, hreceiving.sameReader hsame⟩
  · exact .inr ⟨hok, hreceiving.rx.reset hreset⟩

theorem enterTimeWait_keeps (s : Stream) :
    { s with status := .timeWait }.KeepsReader (tcpEnterTimeWait s) := by
  rw [tcpEnterTimeWait]
  refine Stream.SameReader.keeps ?_ (armOrAbort_keeps _ false)
  exact .of_rx rfl rfl rfl

theorem enterFinWait2_keeps (s : Stream) :
    { s with status := .finWait2 }.KeepsReader (tcpEnterFinWait2 s) := by
  simp only [tcpEnterFinWait2]
  refine Stream.SameReader.keeps ?_ (armOrAbort_keeps _ true)
  exact .of_rx rfl rfl rfl

/-- The state follows the end of the peer's stream. -/
theorem applyPeerEof_ok (hrx : RxInv S held got k s.rx) (hreceives : s.status.receives = true)
    (hconsumed : s.status.peerFinConsumed = true → s.rx.peerEof = true)
    (herror : s.terminalError = 0) : ReceiveOk S held got (tcpApplyPeerEof s) := by
  have hstay : s.status.peerFinConsumed = s.rx.peerEof → ReceiveOk S held got (true, s) :=
    fun h => .inl ⟨rfl, k, hrx, hreceives, h, herror⟩
  rw [tcpApplyPeerEof]
  cases heof : s.rx.peerEof with
  | false =>
    refine hstay ?_
    rw [heof, Bool.eq_false_iff]
    intro h
    rw [hconsumed h] at heof
    exact Bool.noConfusion heof
  | true =>
    have hmove : ∀ status : Status, status.receives = true → status.peerFinConsumed = true →
        ReceiveOk S held got (true, { s with status := status }) := fun status h h' =>
      .of_status hrx herror h (h'.trans heof.symm) (.inl ⟨rfl, .refl _⟩)
    rw [Bool.not_true, if_neg Bool.false_ne_true]
    cases hstatus : s.status with
    | established => exact hmove .closeWait rfl rfl
    | finWait1 => exact hmove .closing rfl rfl
    | finWait2 =>
      have htimeWait : Status.timeWait.peerFinConsumed = s.rx.peerEof := heof.symm
      exact .of_status hrx herror rfl htimeWait (enterTimeWait_keeps s)
    | closeWait | closing | timeWait => exact hstay (by rw [hstatus, heof]; rfl)
    | closed | listen | synSent | synRecv | lastAck =>
      rw [hstatus] at hreceives; exact Bool.noConfusion hreceives

/-- A segment that is not taken does not end the stream. -/
theorem receiveRange_peerEof_of_not_takes {rx : Rx} {seq : Seq} {payload : List UInt8}
    {hasFin : Bool} (hconsumed : status.peerFinConsumed = rx.peerEof)
    (h : rx.takes status seq payload.length hasFin = false) :
    (tcpReceiveRange rx status seq payload hasFin).peerEof = rx.peerEof := by
  have hnote := noteDuplicate_sameReader rx seq payload.length
  have hacceptable : tcpSegmentAcceptable (tcpSackNoteDuplicate rx seq payload.length) seq
      payload.length hasFin = tcpSegmentAcceptable rx seq payload.length hasFin := by
    obtain ⟨pending, block, heq⟩ := noteDuplicate_eq rx seq payload.length
    rw [heq]
    rfl
  unfold tcpReceiveRange
  simp only
  generalize tcpSackNoteDuplicate rx seq payload.length = rx1 at hnote hacceptable ⊢
  rw [peerEof_ite_eq_self fun hfin => hnote.peerEof.trans (hconsumed.symm.trans hfin)]
  by_cases heof : rx1.peerEof = true
  · rw [if_pos heof]
    exact hnote.peerEof
  · rw [Rx.takes, hconsumed, Bool.or_self, ← hnote.peerEof, Bool.eq_false_iff.mpr heof,
      Bool.not_false, Bool.true_and] at h
    rw [if_neg heof, hacceptable, h, Bool.not_false, if_pos rfl]
    split_ifs
    · exact (recordDrop_onlyOwner _ _ _ _).sameReader.peerEof.trans hnote.peerEof
    · exact hnote.peerEof

/-- The segment agrees with the peer's stream, its sequence number being read next to the `k` bytes
accepted so far. -/
def Segment.Agrees (S : PeerStream) (k : Nat) (seg : Segment) : Prop :=
  seg.payload.length < 2 ^ 16 ∧
    ((seg.payload = [] ∧ seg.fin = false) ∨ seg.syn = true ∨
      ∃ off, seg.seq = Serial.pos S.irs off ∧ Cut S off seg.payload seg.fin ∧
        off < k + 2 ^ 31 ∧ k ≤ off + 2 ^ 31)

theorem receiveStreamRange_ok {off : Nat} (h : Receiving S held got k s)
    (hlen : seg.payload.length < 2 ^ 16) (hseq : seg.seq = Serial.pos S.irs off)
    (hcut : Cut S off seg.payload seg.fin) (hahead : off < k + 2 ^ 31) (hback : k ≤ off + 2 ^ 31) :
    ReceiveOk S held got (tcpReceiveStreamRange s seg.seq seg.payload seg.fin) := by
  have hconsumed : s.status.peerFinConsumed = true → s.rx.peerEof = true := fun hfin =>
    h.consumed.symm.trans hfin
  obtain ⟨k', -, hrx⟩ := tcpReceiveRange_inv h.rx hconsumed hcut hlen hahead hback
  rw [← hseq] at hrx
  simp only [tcpReceiveStreamRange]
  cases htakes : s.rx.takes s.status seg.seq seg.payload.length seg.fin with
  | true =>
    have hopen : s.status.peerFinConsumed = false := by
      simp only [Rx.takes, Bool.and_eq_true, Bool.not_eq_true', Bool.or_eq_false_iff] at htakes
      exact htakes.1.1
    refine applyPeerEof_ok (s := { s with rx := _ }) hrx h.receives (fun hfin => ?_) h.error
    exact absurd (hopen.symm.trans hfin) Bool.false_ne_true
  | false =>
    have heof := receiveRange_peerEof_of_not_takes h.consumed htakes
    exact .inl ⟨rfl, k', hrx, h.receives, h.consumed.trans heof.symm, h.error⟩

theorem receiveStreamSegment_ok (h : Receiving S held got k s) (hagrees : seg.Agrees S k) :
    ReceiveOk S held got (tcpReceiveStreamSegment s seg) := by
  obtain ⟨hlen, hcases⟩ := hagrees
  rw [tcpReceiveStreamSegment]
  split_ifs with hempty hsyn
  · exact .inl ⟨rfl, k, h⟩
  · exact .inl ⟨rfl, k, h⟩
  · obtain ⟨off, hseq, hcut, hahead, hback⟩ :=
      (hcases.resolve_left hempty).resolve_left hsyn
    have hrange := receiveStreamRange_ok h hlen hseq hcut hahead hback
    simp only
    generalize tcpReceiveStreamRange s seg.seq seg.payload seg.fin = result at hrange ⊢
    obtain ⟨ok, t⟩ := result
    rcases hrange with ⟨hok, k', hreceiving⟩ | ⟨hok, hbroken⟩
    · obtain rfl : ok = true := hok
      simp only
      split_ifs
      · exact .inl ⟨rfl, k', hreceiving.sameReader (.of_rx rfl rfl rfl)⟩
      · have hnoted : t.SameReader { t with
            tsNoted := t.tsNoted || t.rx.recvAck ≠ s.rx.recvAck } := .of_rx rfl rfl rfl
        have hqueued := hnoted.trans (enqueueFragment_sameReader _ false t.sentSeq)
        exact .inl ⟨rfl, k', hreceiving.sameReader hqueued⟩
    · obtain rfl : ok = false := hok
      exact .inr ⟨rfl, hbroken⟩

/-- Behind the peer's FIN the receive path only answers. -/
theorem receiveStreamSegment_keeps (hfin : s.status.peerFinConsumed = true)
    (heof : s.rx.peerEof = true) : s.KeepsReader (tcpReceiveStreamSegment s seg) := by
  have hrx : tcpReceiveRange s.rx s.status seg.seq seg.payload seg.fin =
      tcpSackNoteDuplicate s.rx seg.seq seg.payload.length := by
    have hnote := noteDuplicate_sameReader s.rx seg.seq seg.payload.length
    unfold tcpReceiveRange
    simp only
    rw [peerEof_ite_eq_self fun _ => hnote.peerEof.trans heof, if_pos (hnote.peerEof.trans heof)]
  have hrange : tcpReceiveStreamRange s seg.seq seg.payload seg.fin =
      (true, { s with rx := tcpSackNoteDuplicate s.rx seg.seq seg.payload.length }) := by
    simp only [tcpReceiveStreamRange, Rx.takes, hfin, hrx, Bool.true_or, Bool.not_true,
      Bool.false_and, Bool.false_eq_true, if_false]
  have hsame : s.SameReader { s with rx := tcpSackNoteDuplicate s.rx seg.seq seg.payload.length } :=
    ⟨noteDuplicate_sameReader _ _ _, noteDuplicate_ofo _ _ _, rfl, rfl⟩
  simp only [tcpReceiveStreamSegment, hrange]
  split_ifs
  · exact .inl ⟨rfl, .refl s⟩
  · exact .inl ⟨rfl, .refl s⟩
  · exact .inl ⟨rfl, hsame.trans (.of_rx rfl rfl rfl)⟩
  · have hnoted : s.SameReader { s with
        rx := tcpSackNoteDuplicate s.rx seg.seq seg.payload.length
        tsNoted := s.tsNoted || (tcpSackNoteDuplicate s.rx seg.seq
          seg.payload.length).recvAck ≠ s.rx.recvAck } := hsame.trans (.of_rx rfl rfl rfl)
    exact .inl ⟨rfl, hnoted.trans (enqueueFragment_sameReader _ _ _)⟩

section Handlers

variable {seg : Segment}

section

variable (h : Receiving S held got k s) (hagrees : seg.Agrees S k)
include h hagrees

theorem Receiving.receive : ReceiverOk S held got (tcpReceiveStreamSegment s seg).2 :=
  (receiveStreamSegment_ok h hagrees).ok

theorem Receiving.established : ReceiverOk S held got (tcpStateEstablished s seg) := by
  rw [tcpStateEstablished]
  split_ifs
  · exact h.unlessAborted (processPeerAckEx_keeps s _ _ _ _ _ _ _)
      fun t _ ht => ht.receive hagrees
  · exact h.receive hagrees

theorem Receiving.ackThenData : ReceiverOk S held got (tcpStateAckThenData s seg) := by
  rw [tcpStateAckThenData]
  split_ifs
  · exact h.unlessAborted (processPeerAckEx_keeps s _ _ _ _ _ _ _)
      fun t _ ht => ht.receive hagrees
  · exact h.receive hagrees

theorem Receiving.finWait1 (hstatus : s.status = .finWait1) : ReceiverOk S held got (tcpStateFinWait1 s seg) := by
  rw [tcpStateFinWait1]
  split_ifs
  · refine h.unlessAborted (processPeerAckEx_keeps s _ _ _ _ _ _ _) fun t hsame ht => ?_
    split_ifs
    · have hconsumed := ht.consumed
      rw [hsame.status, hstatus] at hconsumed
      have hmoved : Receiving S held got k { t with status := .finWait2 } :=
        ⟨ht.rx, rfl, hconsumed, ht.error⟩
      exact hmoved.unlessAborted (enterFinWait2_keeps t) fun u _ hu => hu.receive hagrees
    · exact ht.receive hagrees
  · exact h.receive hagrees

omit hagrees in
theorem Receiving.closing (hstatus : s.status = .closing) :
    ReceiverOk S held got (tcpStateClosing s seg) := by
  have hconsumed := h.consumed
  rw [hstatus] at hconsumed
  rw [tcpStateClosing, tcpStateFinal]
  refine h.unlessAborted (receiveStreamSegment_keeps (by rw [hstatus]; rfl) hconsumed.symm)
    fun t hsame ht => ?_
  split_ifs
  · exact ht.ok
  · refine ht.unlessAborted (processPeerAckEx_keeps t _ _ _ _ _ _ _) fun u hsame' hu => ?_
    split_ifs
    · exact hu.ok
    · have heof : Status.timeWait.peerFinConsumed = u.rx.peerEof := by
        rw [hsame'.rx.peerEof, hsame.rx.peerEof, ← hconsumed]
        rfl
      exact (ReceiveOk.of_status hu.rx hu.error rfl heof (enterTimeWait_keeps u)).ok

/-- A segment in any state of the stream. -/
theorem Receiving.handle : ReceiverOk S held got (tcpStateHandle s seg) := by
  have hreceives := h.receives
  rw [tcpStateHandle]
  cases hstatus : s.status with
  | established => exact h.established hagrees
  | closeWait | finWait2 => exact h.ackThenData hagrees
  | finWait1 => exact h.finWait1 hagrees hstatus
  | closing => exact h.closing hstatus
  | timeWait => exact h.receive hagrees
  | closed | listen | synSent | synRecv | lastAck =>
    rw [hstatus] at hreceives; exact Bool.noConfusion hreceives

/-- A segment keeps the receiver in order, in every state. -/
theorem Receiving.ingress : ReceiverOk S held got (tcpIngress s seg) := by
  have hask := h.sameReader (ask_sameReader s)
  simp only [tcpIngress]
  split_ifs
  · exact h.ok
  · exact .inr (h.rx.reset (tcpAbortStream_reset s (by decide) false))
  · exact h.ok
  · exact hask.handle hagrees
  · exact hask.ok
  · refine (hask.sameReader (.trans ?_ (enqueueFragment_sameReader _ _ _))).ok
    exact ⟨noteDuplicate_sameReader _ _ _, noteDuplicate_ofo _ _ _, rfl, rfl⟩
  · exact hask.handle hagrees

end

end Handlers

section Read

variable {blob : RxBlob} {rx : Rx} {len : Nat}

/-- The blob being read has something left. -/
def Unread (held : Option RxBlob) : Prop := ∀ blob ∈ held, blob.off < blob.data.length

/-- Taking the next blob changes nothing but the blob being read. -/
theorem nsockTcpRxCurrent_some (h : RxInv S held got k s.rx) (hheld : Unread held)
    (hcurrent : nsockTcpRxCurrent s.rx = (some blob, rx)) :
    RxInv S (some blob) got k rx ∧ blob.off < blob.data.length ∧ rx.peerEof = s.rx.peerEof := by
  rw [nsockTcpRxCurrent, h.reading] at hcurrent
  cases held with
  | some current =>
    obtain ⟨rfl, rfl⟩ : current = blob ∧ s.rx = rx := by simpa using hcurrent
    exact ⟨h, hheld current rfl, rfl⟩
  | none =>
    cases hqueue : s.rx.rxQueue with
    | nil => rw [hqueue] at hcurrent; simp at hcurrent
    | cons head rest =>
      rw [hqueue] at hcurrent
      obtain ⟨rfl, rfl⟩ : head = blob ∧
          { s.rx with rxCurrent := some head, rxQueue := rest } = rx := by simpa using hcurrent
      have hread : ({ s.rx with rxCurrent := some head, rxQueue := rest } : Rx).readable =
          s.rx.readable := by
        simp [Rx.readable, h.reading, hqueue]
      refine ⟨⟨⟨h.size, h.inside, ?_, rfl, ?_⟩, h.ack, h.eof, h.queue⟩, ?_, rfl⟩
      · rw [hread]
        exact h.bytes
      · exact fun b hb => h.blobs b (by rw [hqueue]; exact mem_cons_of_mem _ hb)
      · exact h.blobs head (by rw [hqueue]; exact mem_cons_self)

theorem nsockTcpRxCurrent_none (h : RxInv S held got k s.rx)
    (hcurrent : (nsockTcpRxCurrent s.rx).1 = none) : s.rx.readable = [] := by
  rw [nsockTcpRxCurrent, h.reading] at hcurrent
  cases held with
  | some current => simp at hcurrent
  | none =>
    cases hqueue : s.rx.rxQueue with
    | nil => simp [Rx.readable, h.reading, hqueue]
    | cons head rest => rw [hqueue] at hcurrent; simp at hcurrent

/-- Copying bytes out moves them from the readable ones to those returned. -/
theorem RxInv.advance (h : RxInv S (some blob) got k rx) (n : Nat) :
    RxPrefix S (some { blob with off := blob.off + n }) (got ++ (blob.data.drop blob.off).take n) k
      (rx.advance blob n) := by
  refine ⟨h.size, h.inside, ?_, rfl, h.blobs⟩
  have hbytes := h.bytes
  rw [Rx.readable, h.reading] at hbytes
  simp only [Rx.readable, Rx.advance, toList_some, map_cons, map_nil,
    flatten_cons, flatten_nil, append_nil, RxBlob.unread, ← drop_drop]
    at hbytes ⊢
  rw [append_assoc, ← append_assoc _ (List.drop n _), take_append_drop]
  exact hbytes

/-- Draining the out-of-order queue behind a read. -/
theorem RxInv.advance_drain (h : RxInv S (some blob) got k rx) (n : Nat) :
    ∃ k', RxInv S (some { blob with off := blob.off + n })
      (got ++ (blob.data.drop blob.off).take n) k' (tcpOfoDrain (rx.advance blob n)) ∧
      (rx.peerEof = true → (tcpOfoDrain (rx.advance blob n)).peerEof = true) := by
  have hpre := h.advance n
  cases heof : rx.peerEof with
  | false =>
    have hack := h.ack
    rw [heof, if_neg Bool.false_ne_true, add_zero] at hack
    have hqueue : Queue S k (rx.advance blob n).ofo (k + 2 ^ 18) := h.queue
    obtain ⟨k', -, hinv⟩ := tcpOfoDrain_inv hpre hack heof hqueue (le_refl k) (by omega)
    exact ⟨k', hinv, fun habsurd => absurd habsurd Bool.false_ne_true⟩
  | true =>
    obtain ⟨hfin, hall, hofo⟩ := h.eof heof
    have hdrain : tcpOfoDrain (rx.advance blob n) = { rx.advance blob n with ofo := [] } := by
      rw [tcpOfoDrain, show (rx.advance blob n).ofo = [] from hofo, tcpOfoDrainLoop]
    rw [hdrain]
    refine ⟨k, ⟨hpre.congr rfl rfl rfl, h.ack, fun _ => ⟨hfin, hall, rfl⟩, ?_⟩, fun _ => heof⟩
    have hqueue := h.queue
    rw [hofo] at hqueue
    exact hqueue

/-- Dropping a blob that was read to its end. -/
theorem Receiving.dropBlob (h : Receiving S (some blob) got k s)
    (hread : blob.data.length ≤ blob.off) :
    Receiving S none got k { s with rx := { s.rx with rxCurrent := none } } := by
  refine ⟨⟨⟨h.rx.size, h.rx.inside, ?_, rfl, h.rx.blobs⟩, h.rx.ack, h.rx.eof, h.rx.queue⟩,
    h.receives, h.consumed, h.error⟩
  rw [← h.rx.bytes]
  simp [Rx.readable, h.rx.reading, RxBlob.unread, drop_eq_nil_of_le hread]

/-- The bytes of a result of `tcp_recv`. -/
def Received.bytes : Received → List UInt8
  | .data bytes => bytes
  | _ => []

theorem recvBlob_ok (h : Receiving S held got k s) (hrx : RxInv S (some blob) got k rx)
    (heof : rx.peerEof = s.rx.peerEof) (len : Nat) :
    ∃ held', Unread held' ∧ ReceiverOk S held' (got ++ (recvBlob s rx blob len).1.bytes)
      (recvBlob s rx blob len).2 := by
  have hbytes : (blob.data.drop blob.off).take len = (blob.data.drop blob.off).take
      ((blob.data.drop blob.off).take len).length :=
    prefix_iff_eq_take.mp (List.take_prefix _ _)
  obtain ⟨k', hinv, hkeep⟩ := hrx.advance_drain ((blob.data.drop blob.off).take len).length
  rw [← hbytes] at hinv
  simp only [recvBlob, Received.bytes]
  generalize (blob.data.drop blob.off).take len = bytes at hinv hkeep ⊢
  have happly := applyPeerEof_ok (s := { s with rx := tcpOfoDrain (rx.advance blob bytes.length) })
    hinv h.receives (fun hfin => hkeep (heof.trans (h.consumed.symm.trans hfin))) h.error
  generalize tcpApplyPeerEof { s with rx := tcpOfoDrain (rx.advance blob bytes.length) } = result
    at happly ⊢
  obtain ⟨ok, t⟩ := result
  rcases happly with ⟨hok, k'', hreceiving⟩ | ⟨hok, hbroken⟩
  · obtain rfl : ok = true := hok
    have hreading := hreceiving.sameReader (t := { t with ackPending := true }) (.of_rx rfl rfl rfl)
    rw [unlessAborted, if_pos rfl]
    split_ifs with hleft
    · refine ⟨some { blob with off := blob.off + bytes.length }, fun b hb => ?_, hreading.ok⟩
      obtain rfl := mem_some_iff.mp hb
      exact hleft
    · exact ⟨none, fun b hb => absurd hb (not_mem_none b),
        (hreading.dropBlob (Nat.le_of_not_lt hleft)).ok⟩
  · obtain rfl : ok = false := hok
    exact ⟨none, fun b hb => absurd hb (not_mem_none b), .inr hbroken⟩

/-- What a read must satisfy: the bytes returned so far stay a prefix, and neither an end of file nor
an empty result is reported early. -/
def ReadOk (S : PeerStream) (got : List UInt8) (len : Nat) (result : Received × Stream) : Prop :=
  (∃ held, Unread held ∧ ReceiverOk S held (got ++ result.1.bytes) result.2) ∧
    (result.1 = .eof → S.fin = true ∧ got = S.data) ∧ (result.1 = .data [] → len = 0)

/-- A read that changes nothing and does not report an end of file. -/
theorem ReceiverOk.readOk (h : ReceiverOk S held got s) (hheld : Unread held) {result : Received}
    (hbytes : result.bytes = []) (heof : result = .eof → S.fin = true ∧ got = S.data)
    (hempty : result = .data [] → len = 0) : ReadOk S got len (result, s) :=
  ⟨⟨held, hheld, by rw [hbytes, append_nil]; exact h⟩, heof, hempty⟩

/-- A read returns the bytes that follow those read before. -/
theorem Receiving.recv (h : Receiving S held got k s) (hheld : Unread held) (hlen : len ≠ 0) :
    ReadOk S got len (tcpRecv s len) := by
  rw [tcpRecv, if_neg hlen, if_neg (not_not.mpr h.error)]
  cases hcurrent : nsockTcpRxCurrent s.rx with
  | mk current rx =>
    cases current with
    | some blob =>
      obtain ⟨hrx, hoff, heof⟩ := nsockTcpRxCurrent_some h.rx hheld hcurrent
      refine ⟨recvBlob_ok h hrx heof len, fun habsurd => Received.noConfusion habsurd,
        fun hempty => absurd hempty ?_⟩
      have hpos : 0 < ((blob.data.drop blob.off).take len).length := by
        rw [length_take, length_drop]
        omega
      intro hnil
      have hbytes : (blob.data.drop blob.off).take len = [] := by simpa [recvBlob] using hnil
      rw [hbytes] at hpos
      exact absurd hpos (lt_irrefl 0)
    | none =>
      have hreadable := nsockTcpRxCurrent_none h.rx (by rw [hcurrent])
      refine h.ok.readOk hheld ?_ (fun heof => ?_) fun hempty => ?_
      · split_ifs <;> rfl
      · have hclosed : s.status ≠ .closed := by
          intro hclosed
          have hreceives := h.receives
          rw [hclosed] at hreceives
          exact Bool.noConfusion hreceives
        have hend : s.rx.peerEof = true := by
          by_contra hnot
          rw [if_neg (by simp [hnot, hclosed])] at heof
          exact Received.noConfusion heof
        obtain ⟨hfin, hall, -⟩ := h.rx.eof hend
        have hbytes := h.rx.bytes
        rw [hreadable, append_nil, hall, take_length] at hbytes
        exact ⟨hfin, hbytes⟩
      · split_ifs at hempty

theorem tcpRecv_ok (h : ReceiverOk S held got s) (hheld : Unread held) (len : Nat) :
    ReadOk S got len (tcpRecv s len) := by
  by_cases hlen : len = 0
  · rw [tcpRecv, if_pos hlen]
    exact h.readOk hheld rfl (fun habsurd => Received.noConfusion habsurd) fun _ => hlen
  · rcases h with ⟨k, hreceiving⟩ | hbroken
    · exact hreceiving.recv hheld hlen
    · rw [tcpRecv, if_neg hlen, if_pos hbroken.error]
      have hok : ReceiverOk S held got s := .inr hbroken
      exact hok.readOk hheld rfl (fun habsurd => Received.noConfusion habsurd)
        fun habsurd => Received.noConfusion habsurd

end Read

section Runs

/-- A stream and the bytes `tcp_recv` has returned from it. -/
structure ReceiverState where
  stream : Stream
  got : List UInt8 := []
  deriving DecidableEq, Repr

/-- Contiguous bytes accepted from the peer: those returned and those that can be read. -/
def ReceiverState.accepted (st : ReceiverState) : Nat :=
  st.got.length + st.stream.rx.readable.length

/-- What happens to a receiver, each time in its own surroundings. -/
inductive ReceiverEvent where
  | segment (seg : Segment) (world : Surroundings)
  | recv (len : Nat) (world : Surroundings)
  deriving DecidableEq, Repr

/-- One event of a run. -/
def receiverStep (st : ReceiverState) : ReceiverEvent → ReceiverState
  | .segment seg w => { st with stream := tcpIngress (st.stream.within w) seg }
  | .recv len w =>
    let result := tcpRecv (st.stream.within w) len
    ⟨result.2, st.got ++ result.1.bytes⟩

/-- Runs of a receiver that nothing has arrived at yet: any order of reads and of segments that
agree with the peer's stream. -/
def receiverSystem (S : PeerStream) : System ReceiverState ReceiverEvent where
  init st :=
    (st.stream.status = .established ∨ st.stream.status = .finWait1 ∨
        st.stream.status = .finWait2) ∧
      st.stream.terminalError = 0 ∧ st.stream.rx.recvAck = S.irs ∧
      st.stream.rx.rcvbufSize = tcpRcvbufSize ∧ st.stream.rx.peerEof = false ∧
      st.stream.rx.rxCurrent = none ∧ st.stream.rx.rxQueue = [] ∧ st.stream.rx.ofo = [] ∧
      st.got = []
  enabled st
    | .segment seg _ => seg.Agrees S st.accepted
    | .recv _ _ => True
  step := receiverStep

/-- The states of the runs of a receiver. -/
abbrev ReceiverReachable (S : PeerStream) (st : ReceiverState) : Prop :=
  (receiverSystem S).Reach (fun _ _ => True) st

/-- The receiver of a run is in order. -/
def ReceiverState.Ok (S : PeerStream) (st : ReceiverState) : Prop :=
  ∃ held, Unread held ∧ ReceiverOk S held st.got st.stream

variable {st : ReceiverState}

theorem Receiving.accepted (h : Receiving S held st.got k st.stream) : st.accepted = k := by
  have hlen := congrArg List.length h.rx.bytes
  rw [length_append, length_take, min_eq_left h.rx.inside] at hlen
  exact hlen

theorem within_sameReader (s : Stream) (w : Surroundings) : s.SameReader (s.within w) :=
  ⟨⟨rfl, rfl, rfl, rfl, rfl⟩, rfl, rfl, rfl⟩

theorem ReceiverOk.within (h : ReceiverOk S held got s) (w : Surroundings) :
    ReceiverOk S held got (s.within w) := by
  rcases h with ⟨k, hreceiving⟩ | hbroken
  · exact (hreceiving.sameReader (within_sameReader s w)).ok
  · exact .inr ⟨hbroken.status, hbroken.error, hbroken.position⟩

/-- Every event leaves the receiver with a part of the stream. -/
theorem receiverStep_ok (h : st.Ok S) (e : ReceiverEvent)
    (henabled : (receiverSystem S).enabled st e) : (receiverStep st e).Ok S := by
  obtain ⟨held, hheld, hok⟩ := h
  cases e with
  | recv len w => exact (tcpRecv_ok (hok.within w) hheld len).1
  | segment seg w =>
    refine ⟨held, hheld, ?_⟩
    rcases hok with ⟨k, hreceiving⟩ | hbroken
    · have hagrees : seg.Agrees S k := by
        rw [← hreceiving.accepted]
        exact henabled
      exact (hreceiving.sameReader (within_sameReader st.stream w)).ingress hagrees
    · have hclosed : tcpIngress (st.stream.within w) seg = st.stream.within w := by
        have hstatus : (st.stream.within w).status = .closed := hbroken.status
        rw [tcpIngress, if_pos hstatus]
      rw [receiverStep, hclosed]
      exact ReceiverOk.within (.inr hbroken) w

theorem receiverInit_ok (h : (receiverSystem S).init st) : st.Ok S := by
  obtain ⟨hstatus, herror, hack, hsize, heof, hcurrent, hqueue, hofo, hgot⟩ := h
  have hreadable : st.stream.rx.readable = [] := by simp [Rx.readable, hcurrent, hqueue]
  refine ⟨none, fun b hb => absurd hb (not_mem_none b), .inl ⟨0, ⟨⟨?_, zero_le, ?_,
    hcurrent, ?_⟩, ?_, ?_, ?_⟩, ?_, ?_, herror⟩⟩
  · rw [hsize]
    decide
  · rw [hgot, hreadable, take_zero, append_nil]
  · rw [hqueue]
    exact fun b hb => absurd hb not_mem_nil
  · rw [hack, heof, if_neg Bool.false_ne_true, add_zero, Serial.pos_zero]
  · rw [heof]
    exact fun habsurd => absurd habsurd Bool.false_ne_true
  · rw [hofo]
    exact zero_le
  · rcases hstatus with hstatus | hstatus | hstatus <;> rw [hstatus] <;> rfl
  · rw [heof]
    rcases hstatus with hstatus | hstatus | hstatus <;> rw [hstatus] <;> rfl

theorem receiverReachable_ok (h : ReceiverReachable S st) : st.Ok S :=
  h.invariant (fun _ hinit => receiverInit_ok hinit) fun _ e hok hen _ => receiverStep_ok hok e hen

/-- In every run the bytes returned are a prefix of the peer's stream, `recv_ack` counts the bytes
accepted and the FIN, and an end of file is reported only once every byte was returned. -/
theorem received_bytes_follow_stream (h : ReceiverReachable S st) :
    st.got <+: S.data ∧
      (∃ k ≤ S.data.length,
        st.stream.rx.recvAck = Serial.pos S.irs (k + if st.stream.rx.peerEof then 1 else 0) ∧
        (st.stream.rx.peerEof = true → S.fin = true ∧ k = S.data.length) ∧
        st.got <+: S.data.take k ∧
        (st.stream.terminalError = 0 → k = st.accepted ∧
          st.got ++ st.stream.rx.readable = S.data.take k)) ∧
      ∀ (w : Surroundings) (len : Nat), len ≠ 0 →
        (tcpRecv (st.stream.within w) len).1 = .eof ∨
          (tcpRecv (st.stream.within w) len).1 = .data [] →
        S.fin = true ∧ st.got = S.data := by
  obtain ⟨held, hheld, hok⟩ := receiverReachable_ok h
  refine ⟨?_, ?_, fun w len hlen hend => ?_⟩
  · rcases hok with ⟨k, hreceiving⟩ | hbroken
    · have hbytes := hreceiving.rx.bytes
      exact (hbytes ▸ prefix_append _ _ : st.got <+: S.data.take k).trans
        (List.take_prefix _ _)
    · obtain ⟨k, -, hpre, -⟩ := hbroken.position
      exact hpre.trans (List.take_prefix _ _)
  · rcases hok with ⟨k, hreceiving⟩ | hbroken
    · have hbytes := hreceiving.rx.bytes
      exact ⟨k, hreceiving.rx.inside, hreceiving.rx.ack,
        fun heof => ⟨(hreceiving.rx.eof heof).1, (hreceiving.rx.eof heof).2.1⟩,
        hbytes ▸ prefix_append _ _, fun _ => ⟨hreceiving.accepted.symm, hbytes⟩⟩
    · obtain ⟨k, hle, hpre, hack, heof⟩ := hbroken.position
      exact ⟨k, hle, hack, heof, hpre, fun hnone => absurd hnone hbroken.error⟩
  · obtain ⟨-, heof, hempty⟩ := tcpRecv_ok (hok.within w) hheld len
    rcases hend with hend | hend
    · exact heof hend
    · exact absurd (hempty hend) hlen

/-- Six bytes and a FIN, the third of them at the wrap. -/
def wrappingStream : PeerStream := ⟨0xfffffffe, [1, 2, 3, 4, 5, 6], true⟩

/-- The second half with the FIN, the first half, and a read of four bytes. -/
def outOfOrder : List ReceiverEvent :=
  let w : Surroundings := { env := 0 :: List.replicate 8 1, rxEnv := List.replicate 8 1 }
  [.segment { seq := 1, ackNum := 0, ack := false, fin := true, payload := [4, 5, 6] } w,
    .segment { seq := 0xfffffffe, ackNum := 0, ack := false, payload := [1, 2, 3] } w, .recv 2 w,
    .recv 2 w]

/-- A receiver that nothing has arrived at. -/
def idleReceiver : ReceiverState where
  stream :=
    { sndUna := 0, rx := { recvAck := 0xfffffffe }, sentSeq := 0, sndbuf := tcpSndbufInit 0 }

theorem outOfOrder_reachable :
    ReceiverReachable wrappingStream
      ((receiverSystem wrappingStream).run idleReceiver outOfOrder) := by
  have hinit : (receiverSystem wrappingStream).init idleReceiver :=
    ⟨.inl rfl, rfl, rfl, rfl, rfl, rfl, rfl, rfl, rfl⟩
  refine System.Reach.run (.init hinit) ⟨⟨by decide, .inr (.inr ⟨3, rfl, ?_, ?_, ?_⟩)⟩, trivial,
    ⟨by decide, .inr (.inr ⟨0, rfl, ?_, ?_, ?_⟩)⟩, trivial, trivial, trivial, trivial, trivial,
    trivial⟩
  · exact ⟨by decide, by decide, by decide⟩
  · decide
  · decide
  · exact ⟨by decide, by decide, by decide⟩
  · decide
  · decide

theorem received_bytes_out_of_order :
    ((receiverSystem wrappingStream).run idleReceiver outOfOrder).got = [1, 2, 3] ∧
      [1, 2, 3] <+: wrappingStream.data :=
  ⟨by decide, (received_bytes_follow_stream outOfOrder_reachable).1⟩

end Runs

end SnowTG.Tcp
