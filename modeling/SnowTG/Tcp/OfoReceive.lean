import SnowTG.Tcp.DrainMoves

/-!
# Segments and reads keep the out-of-order queue in order

Every call of the receive path that touches the queue leads from a settled state
to a settled one, whatever the allocator answers, as long as no FIN without
payload falls strictly inside a node.
-/

namespace SnowTG.Tcp

open SnowTG.Lib List

namespace IndexedRx

variable {base : Seq} {others : Nat × Nat} {k : Nat} {ix : IndexedRx} {rx : Rx} {seq : Seq}
  {data payload : List UInt8} {hasFin : Bool} {blob : RxBlob}

theorem Settled.insert (h : ix.Settled base others k) (hlen : data.length < 2 ^ 16)
    (hinside : data = [] → hasFin = true → ix.covers seq = false) :
    (ix.insert seq data hasFin).Settled base others k := by
  obtain ⟨hinv, hreader⟩ := h.toInv.insert h.ack hlen hinside
  exact ⟨hinv, hreader.recvAck.trans h.ack⟩

/-- The receive side behind in-order payload that was delivered. -/
def accepted (rx : Rx) (env : Tape) (data : List UInt8) : Rx :=
  { rx with
    env := env
    rxQueue := rx.rxQueue ++ if data = [] then [] else [⟨data, 0⟩]
    recvAck := rx.recvAck + BitVec.ofNat 32 data.length
    rcvbufUsed := rx.rcvbufUsed + data.length }

theorem accepted_unreadLen (rx : Rx) (env : Tape) (data : List UInt8) :
    (accepted rx env data).unreadLen = rx.unreadLen + data.length := by
  simp only [accepted, Rx.unreadLen, Rx.readable, map_append, flatten_append, length_append]
  split_ifs with hdata <;> simp [hdata, RxBlob.unread, add_assoc]

theorem accepted_recvAck (hack : rx.recvAck = Serial.pos base k) (env : Tape) :
    (accepted rx env data).recvAck = Serial.pos base (k + data.length) := by
  rw [← Serial.pos_add, ← hack]
  rfl

/-- In-order payload that the window has room for moves `recv_ack` over the first nodes. -/
theorem Settled.accept (h : ix.Settled base others k) (hroom : data.length ≤ tcpRcvWnd ix.rx)
    (env : Tape) :
    { ix with rx := accepted ix.rx env data }.Inv base others k (k + data.length) := by
  have hunread := accepted_unreadLen ix.rx env data
  have hedge : (accepted ix.rx env data).edge (k + data.length) = ix.rx.edge k := by
    rw [Rx.edge, Rx.edge, hunread]
    show k + data.length + ix.rx.rcvbufSize - _ = _
    omega
  have hbefore := h.used
  have hfree := h.room
  refine ⟨{ h with used := ?_, room := ?_ }, h.content, h.order, h.ids, h.distinct, ?_⟩
  · rw [hunread]
    show ix.rx.rcvbufUsed + data.length = _ + ix.rx.ofoBytes
    omega
  · rw [tcpRcvWnd] at hroom
    show ix.rx.rcvbufUsed + data.length ≤ ix.rx.rcvbufSize
    split_ifs at hroom <;> omega
  · rw [hedge]
    exact h.placed

/-- Whether `tcp_receive_stream_range` gets to deliver in-order payload or to queue the segment; in
both cases the queue is then drained or purged. -/
def rangeDrains (ix : IndexedRx) (status : Status) (seq : Seq) (payload : List UInt8)
    (hasFin : Bool) : Bool :=
  let wndEnd := ix.rx.recvAck + BitVec.ofNat 32 (tcpRcvWnd ix.rx)
  let rx := tcpSackNoteDuplicate ix.rx seq payload.length
  let clipped := Serial.gt (seq + BitVec.ofNat 32 payload.length) wndEnd
  let data := if clipped then payload.take (wndEnd - seq).toNat else payload
  !(status.peerFinConsumed || rx.peerEof) && tcpSegmentAcceptable rx seq payload.length hasFin &&
    (seq ≠ ix.rx.recvAck || (tcpDeliverPayload rx data).1)

/-- The payload of a segment up to the end of the window. -/
def windowCut (rx : Rx) (seq : Seq) (payload : List UInt8) : List UInt8 :=
  let wndEnd := rx.recvAck + BitVec.ofNat 32 (tcpRcvWnd rx)
  if Serial.gt (seq + BitVec.ofNat 32 payload.length) wndEnd then
    payload.take (wndEnd - seq).toNat
  else payload

theorem length_windowCut (rx : Rx) (seq : Seq) (payload : List UInt8) :
    (windowCut rx seq payload).length ≤ payload.length := by
  rw [windowCut]
  split_ifs
  · exact length_take_le' _ _
  · exact le_rfl

/-- What is left of in-order payload after clipping fits the window. -/
theorem windowCut_fits (hlen : payload.length < 2 ^ 16) (hwnd : tcpRcvWnd rx ≤ 2 ^ 18) :
    (windowCut rx rx.recvAck payload).length ≤ tcpRcvWnd rx := by
  have hnearw : Near 0 (0 + tcpRcvWnd rx) := ⟨by omega, by omega⟩
  have hneare : Near 0 (0 + payload.length) := ⟨by omega, by omega⟩
  have hgt := Serial.Near.gt_iff rx.recvAck hneare hnearw
  have hroom := Serial.Near.toNat_sub rx.recvAck hnearw ⟨le_rfl, by omega⟩ zero_le
  rw [← Serial.pos_add, ← Serial.pos_add, Serial.pos_zero] at hgt
  rw [← Serial.pos_add, Serial.pos_zero] at hroom
  rw [windowCut]
  split_ifs with hclipped
  · rw [length_take, hroom]
    omega
  · have := mt hgt.mpr hclipped
    omega

/-- What `tcp_receive_stream_range` does behind the note of a duplicate, with the part `data` of the
payload. -/
inductive Ranged (ix : IndexedRx) (rx : Rx) (seq : Seq) (payload : List UInt8)
    (hasFin taken : Bool) (data : List UInt8) : IndexedRx → Prop where
  | eof (peerEof : Bool) (h : taken = false) : Ranged ix rx seq payload hasFin taken data
      { ix with rx := { rx with peerEof := peerEof } }
  | dropped (h : taken = false) : Ranged ix rx seq payload hasFin taken data
      ({ ix with rx := rx }.recordRcvWindowDrop seq payload.length hasFin)
  | refused {env : Tape} (fin : Bool) (h : taken = true) (hseq : seq = ix.rx.recvAck)
      (hdeliver : tcpDeliverPayload rx data = (false, { rx with env := env })) :
      Ranged ix rx seq payload hasFin taken data
        ({ ix with rx := { rx with env := env } }.insert seq data fin)
  | finished (env : Tape) (h : taken = true) (hseq : seq = ix.rx.recvAck)
      (hdeliver : (tcpDeliverPayload rx data).1 = true) :
      Ranged ix rx seq payload hasFin taken data (purge { ix with rx := { accepted rx env data with
        recvAck := (accepted rx env data).recvAck + 1, peerEof := true } })
  | delivered (env : Tape) (h : taken = true) (hseq : seq = ix.rx.recvAck)
      (hdeliver : (tcpDeliverPayload rx data).1 = true) :
      Ranged ix rx seq payload hasFin taken data (drain { ix with rx := accepted rx env data })
  | queued {fin : Bool} (h : taken = true) (hseq : seq ≠ ix.rx.recvAck)
      (hfin : fin = true → hasFin = true ∧ data = payload) :
      Ranged ix rx seq payload hasFin taken data (drain ({ ix with rx := rx }.insert seq data fin))

theorem receiveRange_ranged (ix : IndexedRx) (status : Status) (seq : Seq) (payload : List UInt8)
    (hasFin : Bool) :
    let rx := tcpSackNoteDuplicate ix.rx seq payload.length
    Ranged ix rx seq payload hasFin (rx.takes status seq payload.length hasFin)
      (windowCut ix.rx seq payload) (ix.receiveRange status seq payload hasFin) := by
  simp only [receiveRange, Rx.takes, windowCut]
  generalize tcpSackNoteDuplicate ix.rx seq payload.length = rx
  generalize Serial.gt (seq + BitVec.ofNat 32 payload.length) _ = clipped
  generalize Serial.lt (seq + BitVec.ofNat 32 payload.length) _ = keep
  generalize hdata : (if clipped = true then payload.take _ else payload) = data
  cases status.peerFinConsumed with
  | true => exact .eof true rfl
  | false =>
    simp only [Bool.false_eq_true, if_false, Bool.false_or]
    by_cases heof : rx.peerEof = true
    · rw [if_pos heof, heof]
      exact .eof rx.peerEof rfl
    rw [if_neg heof, Bool.eq_false_iff.mpr heof]
    cases tcpSegmentAcceptable rx seq payload.length hasFin with
    | false =>
      rw [if_pos Bool.not_false]
      split_ifs
      · exact .dropped rfl
      · exact .eof rx.peerEof rfl
    | true =>
      rw [if_neg (by simp)]
      by_cases hseq : seq = ix.rx.recvAck
      · rw [if_pos hseq]
        obtain ⟨env, hdeliver | hdeliver⟩ := deliver_cases rx data
        · rw [hdeliver]
          exact .refused _ rfl hseq hdeliver
        · rw [hdeliver]
          cases hasFin && !clipped && keep
          · exact .delivered env rfl hseq (congrArg Prod.fst hdeliver)
          · exact .finished env rfl hseq (congrArg Prod.fst hdeliver)
      · rw [if_neg hseq]
        refine .queued rfl hseq fun hfin => ?_
        simp_all

/-- A segment keeps the queue and its accounts together, unless it is a FIN inside a node. -/
theorem Settled.receiveRange {status : Status} (h : ix.Settled base others k)
    (hlen : payload.length < 2 ^ 16)
    (hinside : payload = [] → hasFin = true → ix.covers seq = false) :
    ∃ k', (ix.receiveRange status seq payload hasFin).Settled base others k' ∧
      (ix.rangeDrains status seq payload hasFin = true →
        (ix.receiveRange status seq payload hasFin).Ahead) := by
  have hnote := noteDuplicate_sameReader ix.rx seq payload.length
  have hsame := noteDuplicate_sameAccounts ix.rx seq payload.length
  have hnoted := h.congr hsame hnote.recvAck
  have hdata := (length_windowCut ix.rx seq payload).trans_lt hlen
  have hroom : seq = ix.rx.recvAck → (windowCut ix.rx seq payload).length ≤
      tcpRcvWnd (tcpSackNoteDuplicate ix.rx seq payload.length) := by
    rintro rfl
    rw [tcpRcvWnd, hsame.rcvbufUsed, hsame.rcvbufSize]
    exact windowCut_fits hlen (window_le ix h.toInv)
  have hranged := receiveRange_ranged ix status seq payload hasFin
  have hdrains : ix.rangeDrains status seq payload hasFin =
      ((tcpSackNoteDuplicate ix.rx seq payload.length).takes status seq payload.length hasFin &&
        (seq ≠ ix.rx.recvAck || (tcpDeliverPayload (tcpSackNoteDuplicate ix.rx seq payload.length)
          (windowCut ix.rx seq payload)).1)) := rfl
  rw [hdrains]
  generalize ix.receiveRange status seq payload hasFin = ix' at hranged ⊢
  generalize tcpSackNoteDuplicate ix.rx seq payload.length = rx at hnoted hroom hranged ⊢
  have hkept : ∀ env eof, { ix with rx := { rx with env := env, peerEof := eof } }.Settled
      base others k := fun env eof => hnoted.congr ⟨rfl, rfl, rfl, rfl, rfl, rfl, rfl⟩ rfl
  cases hranged with
  | eof peerEof htaken => exact ⟨k, hkept rx.env peerEof, by simp [htaken]⟩
  | dropped htaken =>
    obtain ⟨hinv, hreader⟩ := hnoted.toInv.recordRcvWindowDrop seq payload.length hasFin
    exact ⟨k, ⟨hinv, hreader.recvAck.trans hnoted.ack⟩, by simp [htaken]⟩
  | @refused env fin htaken hseq hdeliver =>
    have hne : windowCut ix.rx seq payload ≠ [] := by
      intro hnil
      simp [tcpDeliverPayload, hnil] at hdeliver
    refine ⟨k, (hkept env rx.peerEof).insert hdata fun hnil => absurd hnil hne, ?_⟩
    rw [hdeliver]
    simp [hseq]
  | finished env _ hseq =>
    have hinv := hnoted.accept (hroom hseq) env
    refine ⟨k + (windowCut ix.rx seq payload).length + 1, purge_settled ?_ ?_,
      fun _ => ahead_of_nil rfl⟩
    · exact hinv.toAccounts.congr ⟨rfl, rfl, rfl, rfl, rfl, rfl, rfl⟩
    · rw [← Serial.pos_succ, ← accepted_recvAck hnoted.ack env]
  | delivered env _ hseq =>
    obtain ⟨k', -, hsettled, hahead⟩ := (hnoted.accept (hroom hseq) env).drainLoop rfl
      (accepted_recvAck hnoted.ack env) (Nat.le_add_right k _) (by omega)
    exact ⟨k', hsettled, fun _ => hahead⟩
  | queued _ _ hfin =>
    obtain ⟨k', hsettled, hahead⟩ := (hnoted.insert hdata fun hnil hlast =>
      hinside ((hfin hlast).2 ▸ hnil) (hfin hlast).1).drain
    exact ⟨k', hsettled, fun _ => hahead⟩

/-- Fetching the blob to read from moves no byte. -/
theorem rxCurrent_cases {rx' : Rx} (h : nsockTcpRxCurrent rx = (some blob, rx')) :
    rx'.rxCurrent = some blob ∧ rx'.readable = rx.readable ∧
      rx' = { rx with rxCurrent := rx'.rxCurrent, rxQueue := rx'.rxQueue } := by
  rw [nsockTcpRxCurrent] at h
  cases hcurrent : rx.rxCurrent with
  | some current =>
    rw [hcurrent] at h
    obtain ⟨rfl, rfl⟩ := by simpa using h
    exact ⟨hcurrent, rfl, rfl⟩
  | none =>
    rw [hcurrent] at h
    cases hqueue : rx.rxQueue with
    | nil => simp [hqueue] at h
    | cons head rest =>
      rw [hqueue] at h
      obtain ⟨rfl, rfl⟩ := by simpa using h
      exact ⟨rfl, by simp [Rx.readable, hcurrent, hqueue], rfl⟩

/-- A read changes nothing, or frees what it took from the queue of the application, drains and
may drop the blob. -/
theorem recv_drains (ix : IndexedRx) (len : Nat) :
    ix.recv len = ix ∨ ∃ current queue used next, used ≤ ix.rx.rcvbufUsed ∧
      let drained := drain { ix with
        rx := { ix.rx with rxCurrent := current, rxQueue := queue, rcvbufUsed := used } }
      ix.recv len = { drained with rx := { drained.rx with rxCurrent := next } } := by
  rw [IndexedRx.recv]
  cases hcurrent : nsockTcpRxCurrent ix.rx with
  | mk found rx =>
    cases found with
    | none => exact .inl rfl
    | some blob =>
      obtain ⟨-, -, hrx⟩ := rxCurrent_cases hcurrent
      dsimp only
      generalize ((blob.data.drop blob.off).take len).length = n
      have hread : rx.advance blob n = { ix.rx with
          rxCurrent := some { blob with off := blob.off + n }
          rxQueue := rx.rxQueue
          rcvbufUsed := ix.rx.rcvbufUsed - n } := by
        rw [hrx]
        rfl
      rw [hread]
      split_ifs
      · exact .inr ⟨_, _, _, _, Nat.sub_le _ n, rfl⟩
      · exact .inr ⟨_, _, _, none, Nat.sub_le _ n, rfl⟩

/-- Bytes copied out of the current blob leave the buffer. -/
theorem Settled.advance {n : Nat} (h : ix.Settled base others k)
    (hblob : ix.rx.rxCurrent = some blob) (hn : n ≤ (blob.data.drop blob.off).length) :
    { ix with rx := ix.rx.advance blob n }.Settled base others k := by
  have hunread : (ix.rx.advance blob n).unreadLen + n = ix.rx.unreadLen := by
    simp only [Rx.unreadLen, Rx.readable, Rx.advance, hblob, Option.toList_some, map_cons,
      map_nil, flatten_cons, flatten_nil, append_nil, RxBlob.unread,
      length_append, length_drop] at hn ⊢
    omega
  have hused := h.used
  have hroom := h.room
  have hedge : ix.rx.edge k ≤ (ix.rx.advance blob n).edge k := by
    show k + ix.rx.rcvbufSize - _ ≤ k + ix.rx.rcvbufSize - _
    omega
  refine ⟨⟨{ h with used := ?_, room := ?_ }, h.content, h.order,
    h.ids, h.distinct, h.placed.mono hedge le_rfl le_rfl hedge⟩, h.ack⟩
  · show ix.rx.rcvbufUsed - n = (ix.rx.advance blob n).unreadLen + ix.rx.ofoBytes
    omega
  · show ix.rx.rcvbufUsed - n ≤ ix.rx.rcvbufSize
    omega

/-- Reading frees buffer space and then drains. -/
theorem Settled.recv (h : ix.Settled base others k) (len : Nat) :
    ∃ k', (ix.recv len).Settled base others k' ∧
      ((nsockTcpRxCurrent ix.rx).1.isSome = true → (ix.recv len).Ahead) := by
  rw [IndexedRx.recv]
  cases hcurrent : nsockTcpRxCurrent ix.rx with
  | mk found rx =>
    cases found with
    | none => exact ⟨k, h, fun hfalse => absurd hfalse Bool.false_ne_true⟩
    | some blob =>
      obtain ⟨hblob, hreadable, hrx⟩ := rxCurrent_cases hcurrent
      have hfetched : { ix with rx := rx }.Settled base others k := by
        refine h.congr ?_ (by rw [hrx])
        rw [hrx]
        exact ⟨rfl, rfl, rfl, rfl, rfl, congrArg List.length (by rw [← hrx]; exact hreadable), rfl⟩
      have hn := length_take_le' len (blob.data.drop blob.off)
      dsimp only
      generalize ((blob.data.drop blob.off).take len).length = n at hn ⊢
      obtain ⟨k', hsettled, hahead⟩ := (hfetched.advance hblob hn).drain
      have hreading : (IndexedRx.drain { ix with rx := rx.advance blob n }).rx.rxCurrent =
          some { blob with off := blob.off + n } := (drained_drain _).current
      split_ifs with hleft
      · exact ⟨k', hsettled, fun _ => hahead⟩
      · refine ⟨k', hsettled.congr ⟨rfl, rfl, rfl, rfl, rfl, ?_, rfl⟩ rfl, fun _ => hahead⟩
        simp only [Rx.unreadLen, Rx.readable, hreading]
        have hempty : blob.data.drop (blob.off + n) = [] := drop_eq_nil_iff.mpr (by omega)
        simp [RxBlob.unread, hempty]

/-- Dropping everything received leaves the queue empty. -/
theorem Settled.drainRecv (h : ix.Settled base others k) : ix.drainRecv.Settled base others k := by
  have hreader := purge_sameReader { ix.rx with rxQueue := [], rxCurrent := none }
  obtain ⟨-, hgauges⟩ := purge_released { ix.rx with rxQueue := [], rxCurrent := none }
  have hunread : ix.drainRecv.rx.unreadLen = 0 := by
    show (tcpOfoPurge { ix.rx with rxQueue := [], rxCurrent := none }).unreadLen = 0
    rw [hreader.unreadLen]
    rfl
  have hsize : ix.drainRecv.rx.rcvbufSize = ix.rx.rcvbufSize := hreader.rcvbufSize
  have hcount := h.count
  have hbytes := h.bytes
  refine ⟨⟨⟨rfl, rfl, ?_, zero_le, ?_, zero_le, zero_le, ?_⟩, rfl, rfl, ?_, ?_, ?_⟩,
    hreader.recvAck.trans h.ack⟩
  · rw [hunread]
    rfl
  · rw [hsize]
    exact h.size
  · refine hgauges.trans ?_
    show (ix.rx.owner.gauges.1 - ix.rx.ofo.length, ix.rx.owner.gauges.2 - bytesOf ix.rx.ofo) =
      (others.1 + 0, others.2 + 0)
    rw [h.gauges, Prod.mk.injEq]
    omega
  · intro node hnode
    exact absurd hnode (not_mem_nil)
  · exact nodup_nil
  · show k ≤ ix.drainRecv.rx.edge k
    rw [Rx.edge, hunread]
    omega

end IndexedRx

end SnowTG.Tcp
