import SnowTG.Tcp.OptionGrammar
import SnowTG.Tcp.SenderSafety

/-!
# The size of data segments

What the flush puts into a segment is cut to the peer's maximum segment size and
to what the options leave of the local maximum.  The options are charged against
the local maximum only: the payload alone may fill the peer's, whatever stands in
front of it.  A peer that announces a very small size is given the default instead.
-/

namespace SnowTG.Tcp

open SnowTG.Lib List

/-- Payload and options, in bytes. -/
def WireSeg.size (seg : WireSeg) : Nat := seg.payload.length + seg.optLen * 4

/-- The payload is cut to the peer's size and to what the options leave of the local one. -/
def WireSeg.Cut (mss : Nat) (seg : WireSeg) : Prop :=
  seg.payload.length ≤ min mss (tcpDefaultMss - seg.optLen * 4)

variable {s t u : Stream} {seg : WireSeg}

theorem WireSeg.Cut.of_empty {mss : Nat} (h : seg.payload = []) : seg.Cut mss := by
  rw [WireSeg.Cut, h]
  exact zero_le

/-- Every segment sent between two states is cut to size, and the peer's size stays. -/
structure Stream.Cuts (s t : Stream) : Prop where
  sndMss : t.sndMss = s.sndMss
  out : ∃ segs, t.out = s.out ++ segs ∧ ∀ seg ∈ segs, seg.Cut s.smss

theorem Stream.Cuts.smss (h : s.Cuts t) : t.smss = s.smss := by
  rw [Scoreboard.smss, Scoreboard.smss, h.sndMss]

theorem Stream.Cuts.of_eq (hmss : t.sndMss = s.sndMss) (hout : t.out = s.out) : s.Cuts t :=
  ⟨hmss, [], by rw [hout, append_nil], fun _ h => absurd h not_mem_nil⟩

/-- What the segments are compared with may come from another state. -/
theorem Stream.Cuts.since (h : t.Cuts u) (hmss : t.sndMss = s.sndMss) (hout : t.out = s.out) :
    s.Cuts u := by
  obtain ⟨segs, hsegs, hcut⟩ := h.out
  refine ⟨h.sndMss.trans hmss, segs, hout ▸ hsegs, fun seg hseg => ?_⟩
  have hsmss : t.smss = s.smss := by rw [Scoreboard.smss, Scoreboard.smss, hmss]
  exact hsmss ▸ hcut seg hseg

theorem Stream.Cuts.refl (s : Stream) : s.Cuts s := .of_eq rfl rfl

theorem Stream.Cuts.one (hmss : t.sndMss = s.sndMss) (hout : t.out = s.out ++ [seg])
    (hcut : seg.Cut s.smss) : s.Cuts t := by
  refine ⟨hmss, [seg], hout, fun other hother => ?_⟩
  rw [mem_singleton.mp hother]
  exact hcut

theorem Stream.Cuts.trans (h : s.Cuts t) (h' : t.Cuts u) : s.Cuts u := by
  obtain ⟨segs, hout, hcut⟩ := h.out
  obtain ⟨segs', hout', hcut'⟩ := h'.out
  refine ⟨h'.sndMss.trans h.sndMss, segs ++ segs', ?_, fun seg hseg => ?_⟩
  · rw [hout', hout, append_assoc]
  · rcases mem_append.mp hseg with hseg | hseg
    · exact hcut seg hseg
    · exact h.smss ▸ hcut' seg hseg

section Steps

theorem enqueueFragment_cuts (s : Stream) (fin : Bool) (seq : Seq) :
    s.Cuts (tcpEnqueueFragment s fin seq).2 := by
  simp only [tcpEnqueueFragment, nsockTcpTxEnqueue]
  split_ifs <;> exact .of_eq rfl rfl

theorem abortStream_cuts (s : Stream) (error : Nat) (sendReset : Bool) :
    s.Cuts (tcpAbortStream s error sendReset) := by
  simp only [tcpAbortStream, tcpTrySendAbortReset]
  split_ifs
  · exact .of_eq rfl rfl
  · exact .one rfl rfl (.of_empty rfl)
  · exact .of_eq rfl rfl

theorem armOrAbort_cuts (s : Stream) (sendReset : Bool) : s.Cuts (armOrAbort s sendReset).2 := by
  simp only [armOrAbort, tcpArmTimer]
  by_cases harmed : s.ask.1 = 0
  · rw [if_pos harmed]
    exact (abortStream_cuts s.ask.2 enobufs sendReset).since rfl rfl
  · rw [if_neg harmed]
    exact .of_eq rfl rfl

theorem Stream.Prepared.cuts (h : s.Prepared t) : s.Cuts t := by
  obtain ⟨tp, dsack, recent, -, hmss, rfl⟩ := h
  exact .of_eq hmss rfl

theorem emit_cuts (s : Stream) (seg : WireSeg) (hcut : seg.Cut s.smss) :
    s.Cuts (tcpEmit s seg).2 := by
  rcases tcpEmit_cases s seg with ⟨t, hasked, hemit⟩ | ⟨t, hasked, hemit⟩ <;> rw [hemit]
  · exact hasked.cuts
  · exact .one hasked.cuts.sndMss rfl hcut

theorem requeueControl_cuts (s : Stream) (f : Fragment) (rest : List Fragment) (result : TxFlush) :
    s.Cuts (requeueControl s f rest result).2 := by
  rw [requeueControl]
  split_ifs <;> exact .of_eq rfl rfl

theorem flushControl_cuts (queue : List Fragment) (s : Stream) :
    s.Cuts (tcpTxFlushControl queue s).2 := by
  induction queue generalizing s with
  | nil => exact .of_eq rfl rfl
  | cons f rest ih =>
    have hasked : s.Cuts s.ask.2 := .of_eq rfl rfl
    have hemitted : s.Cuts (tcpEmit s.ask.2 f.toWire).2 :=
      hasked.trans (emit_cuts _ _ (.of_empty rfl))
    simp only [tcpTxFlushControl]
    split_ifs
    · exact hasked.trans (requeueControl_cuts _ _ _ _)
    · exact hemitted.trans ((ih _).since rfl rfl)
    · exact hemitted.trans (requeueControl_cuts _ _ _ _)

end Steps

section Payload

/-- At most `n` bytes, `n` being cut by `tcp_options_data_mss`, make a segment of the right size. -/
theorem take_cut {chunk : List UInt8} {words n : Nat} (hn : n ≤ tcpOptionsDataMss s words)
    (hpayload : seg.payload = chunk.take n) (hwords : seg.optLen = words) : seg.Cut s.smss := by
  rw [WireSeg.Cut, hpayload, hwords, length_take]
  exact (min_le_left n _).trans hn

theorem flushRecovery_cuts (s : Stream) : s.Cuts (flushRecoveryTurn s).2 := by
  have hscheduled := (recoverySchedule_prepared s).cuts
  rcases flushRecoveryTurn_cases s with heq | ⟨candidate, heq⟩ <;> rw [heq]
  · exact hscheduled
  · apply hscheduled.trans
    rcases recoveryRetransmit_cases (recoverySchedule s) candidate with
      hidle | ⟨t, chunk, n, words, hready, -, hn, hsent⟩
    · exact hidle.cuts
    · rw [hsent]
      exact .one hready.cuts.sndMss rfl (take_cut hn rfl rfl)

theorem sndbufCharge_sndMss (s : Stream) (seglen : Nat) :
    (sndbufCharge s seglen).sndMss = s.sndMss := by
  simp only [sndbufCharge]
  split_ifs
  · exact (tcpSackCommitCandidate_same s.toScoreboard _).2
  · rw [tcpSackNoteNewData]
    split_ifs <;> rfl

theorem sndbufSent_cuts (s : Stream) (wasIdle : Bool) (seglen : Nat) :
    s.Cuts (sndbufSent s wasIdle seglen).2 := by
  have hcharged : s.Cuts (sndbufCharge s seglen) := .of_eq (sndbufCharge_sndMss s seglen) rfl
  simp only [sndbufSent]
  cases wasIdle with
  | true => exact hcharged.trans ((armOrAbort_cuts _ true).since rfl rfl)
  | false => exact hcharged

theorem flushSndbuf_cuts (s : Stream) : s.Cuts (tcpTxFlushSndbuf s).2 := by
  rcases flushSndbuf_cases s with
    ⟨-, hidle⟩ | ⟨t, chunk, n, words, hready, -, -, -, -, hn, hsent⟩
  · exact hidle.cuts
  · rw [hsent]
    refine Stream.Cuts.trans ?_ (sndbufSent_cuts _ _ n)
    exact .one hready.cuts.sndMss rfl (take_cut hn rfl rfl)

end Payload

section Flush

theorem flushPayloadRound_cuts (s : Stream) : s.Cuts (flushPayloadRound s).2 := by
  have hsndbuf := flushSndbuf_cuts s
  have hqueued := fun fin => enqueueFragment_cuts (tcpTxFlushSndbuf s).2 fin
    (tcpTxFlushSndbuf s).2.sentSeq
  rcases flushPayload_cases s with heq | heq | heq | heq <;> rw [heq]
  · exact hsndbuf
  · exact hsndbuf.trans (hqueued false)
  · exact hsndbuf.trans ((hqueued false).trans (.of_eq rfl rfl))
  · apply hsndbuf.trans
    replace hqueued := hqueued true
    rw [flushDeferredFin]
    generalize tcpEnqueueFragment (tcpTxFlushSndbuf s).2 true _ = queued at hqueued ⊢
    obtain ⟨_ | _, u⟩ := queued
    · exact hqueued.trans (abortStream_cuts u enobufs true)
    · exact hqueued.trans ((armOrAbort_cuts _ true).since rfl rfl)

/-- Every segment of a whole flush is cut to size. -/
theorem flush_cuts (rounds : Nat) (s : Stream) : s.Cuts (tcpTxFlush rounds s).2 :=
  flush_invariant (P := s.Cuts) (fun u h => h.trans (flushControl_cuts u.txQueue u))
    (fun u h => h.trans (flushRecovery_cuts u)) (fun u h => h.trans (flushPayloadRound_cuts u))
    rounds (.refl s)

end Flush

section Sizing

/-- A stream with `data` to send to a peer that announced `mss`, whose next header takes `words`
words of options. -/
def waitingData (data : List UInt8) (mss words : Nat) : Stream where
  sndUna := 0
  sndMss := mss
  env := [tcpSndbufSize, 1, 1, words, 0, 1, 1, 1]
  rx := { recvAck := 0 }
  sentSeq := 0
  sndbuf :=
    { chunks := [{ data := data, off := 0 }]
      len := data.length
      headSeq := 0 }
  sndWnd := tcpSndbufSize
  nodelay := true

variable {data : List UInt8} {mss words : Nat}

/-- Both windows let all of the data pass. -/
theorem waitingData_transmits (hdata : data.length = tcpDefaultMss) :
    tcpTxFlushSndbuf (waitingData data mss words) =
      sndbufTransmit { waitingData data mss words with env := [1, 1, words, 0, 1, 1, 1] } data
        tcpDefaultMss tcpDefaultMss := by
  have hpeek : tcpSndbufPeek (waitingData data mss words).sndbuf
      (waitingData data mss words).sentSeq = some data := by
    simp [tcpSndbufPeek, waitingData, sndbufPeekChunks, hdata, tcpDefaultMss, Serial.lt]
  have hsends : (!(waitingData data mss words).status.sendsPayload ||
      (waitingData data mss words).sndbuf.chunks.isEmpty ||
      decide ((waitingData data mss words).sndbuf.len = 0) ||
      !Serial.lt (waitingData data mss words).sentSeq ((waitingData data mss words).sndbuf.headSeq +
        BitVec.ofNat 32 (waitingData data mss words).sndbuf.len)) = false := by
    simp [waitingData, hdata, Status.sendsPayload, tcpDefaultMss, Serial.lt]
  simp only [tcpTxFlushSndbuf, hsends, hpeek]
  simp [congestionInFlight, waitingData, hdata, tcpCcSendWindow, Stream.ask, Tape.ask,
    sndbufWindow, newDataBound, tcpDefaultMss, tcpSndbufSize]

/-- The segment is as long as the peer's size or what the options leave of the local one. -/
theorem waitingData_sent (hdata : data.length = tcpDefaultMss) (hmss : mss ≠ 0)
    (hwords : words < 11) :
    ∃ t, tcpTxFlushSndbuf (waitingData data mss words) = (.sent, t) ∧
      t.out =
        [{ seq := 0
           ack := 0
           payload := data.take (min mss (tcpDefaultMss - words * 4))
           optLen := words }] := by
  have hroom : 0 < tcpDefaultMss - words * 4 := by
    rw [tcpDefaultMss]
    omega
  have hsome : min mss (tcpDefaultMss - words * 4) ≠ 0 := by omega
  rw [waitingData_transmits hdata]
  simp [sndbufTransmit, Stream.ask, Tape.ask, tcpOptionsApplyEstablished, tcpOptionsDataMss,
    Scoreboard.smss, waitingData, hmss, Nat.mod_eq_of_lt hwords, hsome, tcpEmit,
    sndbufSent, armOrAbort, tcpArmTimer, sndbufCharge, Stream.pendingNewData, tcpSackNoteNewData,
    apply_ite Scoreboard.env]

theorem waitingData_flush (hdata : data.length = tcpDefaultMss) (hmss : mss ≠ 0)
    (hwords : words < 11) :
    ∃ seg ∈ (waitingData data mss words).newSegs (tcpTxFlush 1 (waitingData data mss words)).2,
      seg.payload.length = min mss (tcpDefaultMss - words * 4) ∧ seg.optLen = words := by
  obtain ⟨t, hsent, hout⟩ := waitingData_sent hdata hmss hwords
  have hround : tcpTxFlushRound 1 (waitingData data mss words) = (none, t) := by
    change flushPayloadRound (waitingData data mss words) = (none, t)
    rw [flushPayloadRound, hsent]
  have hflush : tcpTxFlush 1 (waitingData data mss words) = (none, t) := by
    change repeatUntil (tcpTxFlushRound 1) 1 (waitingData data mss words) = (none, t)
    rw [repeatUntil, hround]
    rfl
  rw [hflush, Stream.newSegs, hout]
  refine ⟨_, mem_singleton_self _, ?_, rfl⟩
  rw [length_take, hdata]
  exact min_eq_left ((min_le_right _ _).trans (Nat.sub_le _ _))

/-- The largest data segments are as large as the peer's size and the options in front, or the local
maximum. -/
theorem segments_le_iff (limit : Nat) (words : Fin 11) (hmss : mss ≠ 0) :
    (∀ (s : Stream) (rounds : Nat), s.sndMss = mss →
      ∀ seg ∈ s.newSegs (tcpTxFlush rounds s).2, seg.payload ≠ [] → seg.optLen = words →
        seg.size ≤ limit) ↔ min (mss + words * 4) tcpDefaultMss ≤ limit := by
  have hlocal : words.val * 4 < tcpDefaultMss := by
    rw [tcpDefaultMss]
    omega
  constructor
  · intro hfits
    have hdata : (List.replicate tcpDefaultMss (0 : UInt8)).length = tcpDefaultMss :=
      length_replicate
    obtain ⟨seg, hseg, hlen, hopt⟩ := waitingData_flush hdata hmss words.isLt
    have hpayload : seg.payload ≠ [] := by
      intro hempty
      rw [hempty, length_nil] at hlen
      omega
    have hsize := hfits _ 1 rfl seg hseg hpayload hopt
    rw [WireSeg.size, hlen, hopt] at hsize
    omega
  · intro hlimit s rounds hsnd seg hseg _ hopt
    obtain ⟨segs, hout, hcut⟩ := (flush_cuts rounds s).out
    rw [Stream.newSegs, hout, drop_left] at hseg
    have hseg := hcut seg hseg
    have hsmss : s.smss = mss := by rw [Scoreboard.smss, hsnd, if_pos hmss]
    rw [WireSeg.Cut, hopt, hsmss] at hseg
    rw [WireSeg.size, hopt]
    omega

end Sizing

section Peer

open Options

/-- A SYN of the peer: its option bytes stand for well-formed options. -/
structure PeerSyn where
  dataOff : BitVec 8
  ack : Bool
  bytes : List UInt8
  opts : List TcpOption
  header : 20 ≤ (dataOff >>> 4).toNat * 4
  encodes : Encodes (bytes.take ((dataOff >>> 4).toNat * 4 - 20)) opts
  wellFormed : WellFormed opts

namespace PeerSyn

variable (syn : PeerSyn)

/-- The maximum segment size that the peer announced. -/
def mss : Option (BitVec 16) := syn.opts.findSome? TcpOption.mss?

/-- The smaller of the announced size and the local maximum. -/
def limit : Nat := syn.mss.elim tcpDefaultMss fun mss => min mss.toNat tcpDefaultMss

/-- The stream took its segment size from this SYN. -/
def Agreed (s : Stream) : Prop :=
  ∃ peer, tcpOptionsParse syn.dataOff true syn.ack syn.bytes = some peer ∧
    s.sndMss = negotiatedMss peer

theorem agreed_iff (s : Stream) :
    syn.Agreed s ↔ s.sndMss = negotiatedMss (announced true syn.ack syn.opts) := by
  have hparse : tcpOptionsParse syn.dataOff true syn.ack syn.bytes =
      some (announced true syn.ack syn.opts) :=
    (parse_long_iff syn.header).mpr ⟨syn.opts, syn.encodes, syn.wellFormed, rfl⟩
  constructor
  · rintro ⟨peer, hpeer, hmss⟩
    obtain rfl := Option.some_inj.mp (hparse.symm.trans hpeer)
    exact hmss
  · exact fun hmss => ⟨_, hparse, hmss⟩

/-- An announced size below `TCP_MIN_MSS` counts for nothing. -/
theorem negotiated_eq :
    negotiatedMss (announced true syn.ack syn.opts) =
      syn.mss.elim tcpDefaultMss fun mss =>
        if tcpMinMss ≤ mss.toNat then min mss.toNat tcpDefaultMss else tcpDefaultMss := by
  have hmss : (announced true syn.ack syn.opts).mss =
      (syn.mss.filter (tcpMinMss ≤ ·.toNat)).getD (BitVec.ofNat 16 tcpDefaultMss) := rfl
  rw [negotiatedMss, hmss]
  cases syn.mss with
  | none => rfl
  | some value =>
    by_cases hmin : tcpMinMss ≤ value.toNat
    · simp only [Option.filter_some, hmin, decide_true, if_true, Option.getD_some, Option.elim_some]
      rw [min_def]
      split_ifs <;> omega
    · simp [Option.filter_some, hmin, tcpDefaultMss]

end PeerSyn

/-- A SYN that carries the size alone. -/
def mssSyn (value : BitVec 16) : PeerSyn where
  dataOff := 0x60
  ack := false
  bytes := 2 :: 4 :: Bytes.be16 value
  opts := [.mss value]
  header := by decide
  encodes := .record (TcpOption.mss value).record (show (2 : UInt8) ≠ 0 by decide)
    (show (2 : UInt8) ≠ 1 by decide) (show 4 < 256 by decide) .empty
  wellFormed := ⟨fun _ h => mem_singleton.mp h ▸ trivial, nodup_singleton 2⟩

end Peer

end SnowTG.Tcp
