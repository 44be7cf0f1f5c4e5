import SnowTG.Tcp.OfoRun

/-!
# The right edge of the receive window

`recv_ack` and the window reach up to a right edge.  Bytes delivered in order
move `recv_ack` and fill the buffer by the same amount, and what is drained,
read or purged only makes room.  Payload that is queued out of order fills the
buffer while `recv_ack` stays, so the edge falls back by its length.
-/

namespace SnowTG.Tcp

open SnowTG.Lib List

/-- The first sequence number beyond the receive window. -/
def Rx.rightEdge (rx : Rx) : Seq := rx.recvAck + BitVec.ofNat 32 (tcpRcvWnd rx)

section Forward

variable {a limit : Nat} {rx rx' : Rx}

theorem tcpRcvWnd_of_le (h : rx.rcvbufUsed ≤ rx.rcvbufSize) :
    tcpRcvWnd rx = rx.rcvbufSize - rx.rcvbufUsed := by
  rw [tcpRcvWnd]
  split_ifs <;> omega

/-- While the buffer is not overfull, such a move does not take the right edge back. -/
theorem Rx.Forward.rightEdge_leq (h : Rx.Forward a limit rx rx')
    (hroom : rx.rcvbufUsed ≤ rx.rcvbufSize) (hroom' : rx'.rcvbufUsed ≤ rx'.rcvbufSize)
    (hlimit : limit + rx.rcvbufSize < 2 ^ 31) : Serial.leq rx.rightEdge rx'.rightEdge = true := by
  obtain ⟨n, han, hn, hack, hused, hsize⟩ := h
  have hedge : rx.rightEdge = Serial.pos rx.recvAck (tcpRcvWnd rx) := rfl
  have hedge' : rx'.rightEdge = Serial.pos rx.recvAck (n + tcpRcvWnd rx') := by
    rw [← Serial.pos_add, Rx.rightEdge, hack]
    rfl
  have hwnd := tcpRcvWnd_of_le hroom
  have hwnd' := tcpRcvWnd_of_le hroom'
  rw [hedge, hedge', Serial.leq_pos_iff _ (by omega) (by omega)]
  omega

end Forward

/-- Every byte of the payload lies before `recv_ack`. -/
def Rx.old (rx : Rx) (seq : Seq) (len : Nat) : Bool :=
  Serial.lt seq rx.recvAck && len ≤ (rx.recvAck - seq).toNat

/-- Payload of this length can be delivered: it fits one chunk, the two allocations succeed and the
queue of the application has room. -/
def Rx.deliverable (rx : Rx) (len : Nat) : Bool :=
  len ≤ tcpMemoryChunkSize && rx.env.ask.1 ≠ 0 && rx.env.ask.2.ask.1 ≠ 0 &&
    if rx.ioRings then rx.env.ask.2.ask.2.ask.1 ≠ 0 else rx.rxQueue.length < ringSize

/-- A segment that does not queue payload: it has none, it is old, or it is the next one and can be
delivered. -/
def Rx.inOrder (rx : Rx) (seq : Seq) (len : Nat) : Bool :=
  len = 0 || rx.old seq len || (seq = rx.recvAck && rx.deliverable len)

variable {rx : Rx} {seq : Seq}

theorem Rx.inOrder_mono {n len : Nat} (h : rx.inOrder seq len = true) (hle : n ≤ len) :
    rx.inOrder seq n = true := by
  simp only [Rx.inOrder, Rx.old, Rx.deliverable, Bool.or_eq_true, Bool.and_eq_true,
    decide_eq_true_iff] at h ⊢
  rcases h with (hzero | ⟨hlt, hold⟩) | ⟨hseq, ⟨⟨hchunk, hmemory⟩, hstorage⟩, hqueue⟩
  · exact .inl (.inl (by omega))
  · exact .inl (.inr ⟨hlt, by omega⟩)
  · exact .inr ⟨hseq, ⟨⟨by omega, hmemory⟩, hstorage⟩, hqueue⟩

namespace IndexedRx

variable {ix : IndexedRx} {data : List UInt8}

/-- No payload waits out of order. -/
def Bare (ix : IndexedRx) : Prop := ∀ node ∈ ix.queue, node.seg.data = []

/-- With no payload in the queue a drain can only consume a FIN. -/
theorem Bare.drain (h : ix.Bare) : ix.drain.Bare ∧ Rx.Forward 0 1 ix.rx ix.drain.rx := by
  have hdrained := drained_drain ix
  refine ⟨fun node' hnode' => ?_, hdrained.forward.mono ?_⟩
  · obtain ⟨node, hnode, hpart⟩ := hdrained.mem hnode'
    exact hpart.data_nil (h node hnode)
  have hzero : bytesOf (segs ix.queue) = 0 := by
    rw [bytesOf, segs, map_map]
    apply sum_eq_zero
    intro len hlen
    obtain ⟨node, hnode, rfl⟩ := mem_map.mp hlen
    exact congrArg List.length (h node hnode)
  omega

/-- Linking a node without payload. -/
theorem Bare.link (h : ix.Bare) (before : Option OfoNode) (seq : Seq) (hasFin : Bool) :
    (ix.link before seq [] hasFin).2.Bare ∧
      Rx.Forward 0 0 ix.rx (ix.link before seq [] hasFin).2.rx := by
  have haround : ∀ node, node ∈ (ix.around before).1 ∨ node ∈ (ix.around before).2 →
      node.seg.data = [] := by
    intro node hnode
    apply h
    cases before with
    | none => simpa [around] using hnode
    | some cur =>
      rcases hnode with hnode | hnode
      · exact (takeWhile_sublist _).subset hnode
      · exact (dropWhile_sublist _).subset hnode
  have hforward : Rx.Forward 0 0 ix.rx (tcpOfoLink ix.rx (segs (ix.around before).1)
      (segs (ix.around before).2) seq [] hasFin).2 := by
    rcases tcpOfoLink_cases ix.rx (segs (ix.around before).1) (segs (ix.around before).2) seq []
      hasFin with ⟨howner, -⟩ | ⟨-, -, -, -, -, -, peak, owner, env, -, heq⟩
    · exact howner.forward
    · rw [heq]
      exact .stay rfl le_rfl rfl
  simp only [IndexedRx.link]
  split_ifs
  · exact ⟨h, hforward⟩
  · refine ⟨?_, hforward⟩
    intro node hnode
    rcases mem_append.mp hnode with hpre | hpost
    · exact haround node (.inl hpre)
    · rcases mem_cons.mp hpost with rfl | hrest
      · rfl
      · exact haround node (.inr hrest)

theorem insertLoop_nil (ix : IndexedRx) (hasFin : Bool) (nodes : List OfoNode) (seq : Seq) :
    insertLoop hasFin ix nodes seq [] = ix.link nodes.head? seq [] hasFin := by
  cases nodes with
  | nil => rfl
  | cons cur rest => rw [insertLoop, if_pos length_nil, List.head?_cons]

theorem Bare.recordDrop (h : ix.Bare) (seq : Seq) (len : Nat) (hasFin : Bool) :
    (ix.recordRcvWindowDrop seq len hasFin).Bare ∧
      Rx.Forward 0 0 ix.rx (ix.recordRcvWindowDrop seq len hasFin).rx := by
  obtain ⟨rx, howner, heq⟩ := recordRcvWindowDrop_onlyOwner ix seq len hasFin
  rw [heq]
  exact ⟨h, howner.forward⟩

theorem Bare.queueAhead (h : ix.Bare) (seq : Seq) (hasFin : Bool) :
    (ix.queueAhead seq [] hasFin).2.Bare ∧
      Rx.Forward 0 0 ix.rx (ix.queueAhead seq [] hasFin).2.rx := by
  simp only [IndexedRx.queueAhead, take_nil, ite_self, insertLoop_nil]
  split_ifs
  · exact ⟨h, .refl _⟩
  · exact h.recordDrop _ _ _
  · exact ⟨h, .refl _⟩
  · exact h.link _ _ _

/-- Inserting a segment without payload, or one whose payload is old, queues no payload. -/
theorem Bare.insert (h : ix.Bare) (hasFin : Bool)
    (hdata : data = [] ∨ ix.rx.old seq data.length = true) :
    (ix.insert seq data hasFin).Bare ∧ Rx.Forward 0 0 ix.rx (ix.insert seq data hasFin).rx := by
  have hnote := noteDuplicate_sameReader ix.rx seq data.length
  have hsame := (noteDuplicate_sameAccounts ix.rx seq data.length).forward hnote.recvAck
  have hrecent : ∀ rx, Rx.Forward 0 0 rx (tcpSackNoteRecent rx seq data.length) := by
    intro rx
    obtain ⟨valid, block, heq⟩ := noteRecent_eq rx seq data.length
    rw [heq]
    exact .stay rfl le_rfl rfl
  rw [Rx.old, ← hnote.recvAck] at hdata
  simp only [IndexedRx.insert]
  generalize tcpSackNoteDuplicate ix.rx seq data.length = rx at hsame hdata
  have hnoted : { ix with rx := rx }.Bare := h
  have hqueued : ({ ix with rx := rx }.queueInsert seq data hasFin).2.Bare ∧
      Rx.Forward 0 0 rx ({ ix with rx := rx }.queueInsert seq data hasFin).2.rx := by
    simp only [queueInsert]
    split_ifs with hlt hskip
    · exact ⟨hnoted, .refl _⟩
    · -- what is left behind the old bytes is empty
      have hdrop : data.drop (rx.recvAck - seq).toNat = [] := by
        rcases hdata with rfl | hold
        · exact drop_nil
        · rw [Bool.and_eq_true, decide_eq_true_iff] at hold
          exact drop_eq_nil_of_le hold.2
      rw [hdrop]
      exact hnoted.queueAhead _ _
    · rcases hdata with rfl | hold
      · exact hnoted.queueAhead _ _
      · rw [Bool.and_eq_true] at hold
        exact absurd hold.1 hlt
  exact ⟨hqueued.1, (hsame.trans hqueued.2).then_stay (hrecent _)⟩

/-- Delivery of in-order payload finds memory and room. -/
theorem deliver_of_deliverable (h : rx.deliverable data.length = true) :
    (tcpDeliverPayload rx data).1 = true := by
  simp only [Rx.deliverable, Bool.and_eq_true, decide_eq_true_iff] at h
  obtain ⟨⟨⟨hchunk, hblob⟩, hstorage⟩, hqueue⟩ := h
  simp only [tcpDeliverPayload, nsockTcpRxEnqueue]
  split_ifs with hempty hlong hnoblob hnostorage hrings hnoroom hfull
  · rfl
  · omega
  · exact absurd hnoblob hblob
  · exact absurd hnostorage hstorage
  · have hrings' : rx.ioRings = true := hrings
    rw [if_pos hrings', decide_eq_true_iff] at hqueue
    exact absurd hnoroom hqueue
  · rfl
  · have hrings' : ¬ rx.ioRings = true := hrings
    rw [if_neg hrings', decide_eq_true_iff] at hqueue
    exact absurd hfull (Nat.not_le.mpr hqueue)
  · rfl

/-- A segment that is old, in order or without payload queues no payload, and the buffer fills by no
more than `recv_ack` moves. -/
theorem Bare.receiveRange {status : Status} {payload : List UInt8} {hasFin : Bool} (h : ix.Bare)
    (hlen : payload.length < 2 ^ 16) (hsize : ix.rx.rcvbufSize ≤ 2 ^ 18)
    (hok : ix.rx.inOrder seq payload.length = true) :
    (ix.receiveRange status seq payload hasFin).Bare ∧
      ∃ filled ≤ tcpRcvWnd ix.rx,
        Rx.Forward filled (2 ^ 16 + 1) ix.rx (ix.receiveRange status seq payload hasFin).rx := by
  have hnote := noteDuplicate_sameReader ix.rx seq payload.length
  have hforward := (noteDuplicate_sameAccounts ix.rx seq payload.length).forward hnote.recvAck
  have hshort := length_windowCut ix.rx seq payload
  have hfit : seq = ix.rx.recvAck → (windowCut ix.rx seq payload).length ≤ tcpRcvWnd ix.rx := by
    rintro rfl
    exact windowCut_fits hlen ((tcpRcvWnd_le ix.rx).trans hsize)
  have horder : (tcpSackNoteDuplicate ix.rx seq payload.length).inOrder seq
      (windowCut ix.rx seq payload).length = true := by
    obtain ⟨pending, block, heq⟩ := noteDuplicate_eq ix.rx seq payload.length
    rw [heq]
    exact Rx.inOrder_mono hok hshort
  have hranged := receiveRange_ranged ix status seq payload hasFin
  generalize ix.receiveRange status seq payload hasFin = ix' at hranged ⊢
  generalize windowCut ix.rx seq payload = data at *
  have hack := hnote.recvAck
  clear hnote hok
  generalize tcpSackNoteDuplicate ix.rx seq payload.length = rx at *
  have hbare : ∀ rx', IndexedRx.Bare { ix with rx := rx' } := fun _ => h
  have hstay : ∀ {ix' : IndexedRx}, ix'.Bare → Rx.Forward 0 (data.length + 1) ix.rx ix'.rx →
      ix'.Bare ∧ ∃ filled ≤ tcpRcvWnd ix.rx, Rx.Forward filled (2 ^ 16 + 1) ix.rx ix'.rx :=
    fun hbare' hmove => ⟨hbare', 0, zero_le, hmove.mono (by omega)⟩
  have hend : seq = ix.rx.recvAck → ∀ {ix' : IndexedRx}, ix'.Bare →
      Rx.Forward data.length (data.length + 1) ix.rx ix'.rx →
      ix'.Bare ∧ ∃ filled ≤ tcpRcvWnd ix.rx, Rx.Forward filled (2 ^ 16 + 1) ix.rx ix'.rx :=
    fun hseq _ hbare' hmove => ⟨hbare', data.length, hfit hseq, hmove.mono (by omega)⟩
  have haccept : ∀ env, Rx.Forward data.length data.length ix.rx (accepted rx env data) := by
    intro env
    have hmove : Rx.Forward data.length data.length rx (accepted rx env data) :=
      ⟨data.length, le_rfl, le_rfl, rfl, le_rfl, rfl⟩
    have hboth := hforward.trans hmove
    rwa [zero_add] at hboth
  simp only [Rx.inOrder, Bool.or_eq_true, Bool.and_eq_true, decide_eq_true_iff,
    length_eq_zero_iff] at horder
  cases hranged with
  | eof peerEof =>
    exact hstay (hbare _) ((hforward.then_stay (.stay rfl le_rfl rfl)).mono zero_le)
  | dropped =>
    obtain ⟨hdropped, hdrop⟩ := (hbare rx).recordDrop seq payload.length hasFin
    exact hstay hdropped ((hforward.then_stay hdrop).mono zero_le)
  | refused fin _ hseq hdeliver =>
    have hdelivered : (tcpDeliverPayload rx data).1 = true := by
      rcases horder with (rfl | hold) | ⟨-, hdeliverable⟩
      · rfl
      · rw [hseq, ← hack, Rx.old, Bool.and_eq_true] at hold
        simp [Serial.lt] at hold
      · exact deliver_of_deliverable hdeliverable
    rw [hdeliver] at hdelivered
    exact absurd hdelivered Bool.false_ne_true
  | finished env _ hseq =>
    exact hend hseq (fun other hother => absurd hother not_mem_nil) (fin_forward (haccept env))
  | delivered env _ hseq =>
    obtain ⟨hdrained, hdrain⟩ := (hbare (accepted rx env data)).drain
    exact hend hseq hdrained ((haccept env).trans hdrain)
  | @queued fin _ hseq =>
    have hkept : data = [] ∨ rx.old seq data.length = true := by
      rcases horder with hkept | ⟨hnext, -⟩
      · exact hkept
      · exact absurd (hnext.trans hack) hseq
    obtain ⟨hinserted, hinsert⟩ := (hbare rx).insert fin hkept
    obtain ⟨hdrained, hdrain⟩ := hinserted.drain
    exact hstay hdrained (((hforward.then_stay hinsert).trans hdrain).mono (by omega))

/-- Reading frees what was read, and the drain behind it only makes more room. -/
theorem Bare.recv (h : ix.Bare) (len : Nat) :
    (ix.recv len).Bare ∧ Rx.Forward 0 1 ix.rx (ix.recv len).rx := by
  rcases recv_drains ix len with heq | ⟨current, queue, used, next, hused, heq⟩
  · rw [heq]
    exact ⟨h, (Rx.Forward.refl _).mono zero_le⟩
  · rw [heq]
    have hread : Rx.Forward 0 0 ix.rx
        { ix.rx with rxCurrent := current, rxQueue := queue, rcvbufUsed := used } :=
      .stay rfl hused rfl
    have hbare : IndexedRx.Bare { ix with
        rx := { ix.rx with rxCurrent := current, rxQueue := queue, rcvbufUsed := used } } := h
    obtain ⟨hdrained, hdrain⟩ := hbare.drain
    exact ⟨hdrained, (hread.trans hdrain).then_stay (.stay rfl le_rfl rfl)⟩

theorem Bare.drainRecv (ix : IndexedRx) :
    ix.drainRecv.Bare ∧ Rx.Forward 0 0 ix.rx ix.drainRecv.rx := by
  refine ⟨fun node hnode => absurd hnode not_mem_nil, ?_⟩
  have hdropped : Rx.Forward 0 0 ix.rx { ix.rx with rxQueue := [], rxCurrent := none } :=
    .stay rfl le_rfl rfl
  exact (hdropped.then_stay (purge_forward _)).then_stay (.stay rfl zero_le rfl)

end IndexedRx

/-- The call queues no payload out of order. -/
def QueueCall.inOrder (rx : Rx) : QueueCall → Bool
  | .insert seq data _ => data.length = 0 || rx.old seq data.length
  | .segment _ seq payload _ => rx.inOrder seq payload.length
  | _ => true

/-- A stream none of whose payload waits out of order and whose buffer is not overfull. -/
structure IndexedRx.Flowing (ix : IndexedRx) : Prop where
  bare : ix.Bare
  room : ix.rx.rcvbufUsed ≤ ix.rx.rcvbufSize
  size : ix.rx.rcvbufSize ≤ 2 ^ 18

variable {ix : IndexedRx} {st : StreamOwner}

theorem IndexedRx.Flowing.of_forward {ix' : IndexedRx} {filled limit : Nat} (h : ix.Flowing)
    (hbare : ix'.Bare) (hforward : Rx.Forward filled limit ix.rx ix'.rx)
    (hfilled : filled ≤ tcpRcvWnd ix.rx) (hlimit : limit ≤ 2 ^ 16 + 1) :
    ix'.Flowing ∧ Serial.leq ix.rx.rightEdge ix'.rx.rightEdge = true := by
  have hroom := h.room
  have hsize := h.size
  rw [tcpRcvWnd_of_le hroom] at hfilled
  have hmove := hforward
  obtain ⟨n, -, -, -, hused, hsame⟩ := hmove
  have hroom' : ix'.rx.rcvbufUsed ≤ ix'.rx.rcvbufSize := by omega
  exact ⟨⟨hbare, hroom', by omega⟩, hforward.rightEdge_leq hroom hroom' (by omega)⟩

/-- No such call takes the right edge back. -/
theorem IndexedRx.Flowing.apply (h : ix.Flowing) (call : QueueCall)
    (hlen : call.payload.length < 2 ^ 16) (hok : call.inOrder ix.rx = true) :
    (call.apply ix).Flowing ∧ Serial.leq ix.rx.rightEdge (call.apply ix).rx.rightEdge = true := by
  cases call with
  | insert seq data hasFin =>
    simp only [QueueCall.inOrder, Bool.or_eq_true, decide_eq_true_iff, length_eq_zero_iff] at hok
    obtain ⟨hbare, hforward⟩ := h.bare.insert hasFin hok
    exact h.of_forward hbare hforward zero_le (by omega)
  | drain =>
    obtain ⟨hbare, hforward⟩ := h.bare.drain
    exact h.of_forward hbare hforward zero_le (by omega)
  | purge =>
    have hbare : ix.purge.Bare := fun node hnode => absurd hnode not_mem_nil
    exact h.of_forward hbare (purge_forward ix.rx) zero_le (by omega)
  | segment status seq payload hasFin =>
    obtain ⟨hbare, filled, hfilled, hforward⟩ := h.bare.receiveRange hlen h.size hok
    exact h.of_forward hbare hforward hfilled le_rfl
  | recv len =>
    obtain ⟨hbare, hforward⟩ := h.bare.recv len
    exact h.of_forward hbare hforward zero_le (by omega)
  | drainRecv =>
    obtain ⟨hbare, hforward⟩ := Bare.drainRecv ix
    exact h.of_forward hbare hforward zero_le (by omega)

/-- The event queues no payload out of order: its segment has none, is old, or is the next one and
can be delivered. -/
def PayloadInOrder (st : StreamOwner) (e : QueueEvent) : Prop :=
  ∀ s ∈ st.streams[e.stream]?, e.call.inOrder (s.ix.under st.owner e.tape).rx = true

instance (st : StreamOwner) (e : QueueEvent) : Decidable (PayloadInOrder st e) :=
  inferInstanceAs (Decidable (∀ s ∈ st.streams[e.stream]?, _ = true))

theorem IndexedRx.Flowing.under (h : ix.Flowing) (owner : OfoOwner) (tape : Tape) :
    (ix.under owner tape).Flowing :=
  ⟨h.bare, h.room, h.size⟩

/-- One event of a run keeps every stream flowing and no right edge falls back. -/
theorem ownerStep_flowing {e : QueueEvent} (h : ∀ s ∈ st.streams, s.ix.Flowing)
    (henabled : ownerSystem.enabled st e) (hok : PayloadInOrder st e) (i : Nat)
    (before after : OwnedStream) (hbefore : st.streams[i]? = some before)
    (hafter : (ownerStep st e).streams[i]? = some after) :
    after.ix.Flowing ∧ Serial.leq before.ix.rx.rightEdge after.ix.rx.rightEdge = true := by
  have hstay : after = before →
      after.ix.Flowing ∧ Serial.leq before.ix.rx.rightEdge after.ix.rx.rightEdge = true := by
    rintro rfl
    exact (h after (mem_of_getElem? hbefore)).of_forward
      (h after (mem_of_getElem? hbefore)).bare (.refl _) zero_le zero_le
  rw [ownerStep] at hafter
  cases hstream : st.streams[e.stream]? with
  | none =>
    rw [hstream, hbefore] at hafter
    exact hstay (Option.some.inj hafter).symm
  | some s =>
    rw [hstream] at hafter
    dsimp only at hafter
    by_cases hi : e.stream = i
    · subst hi
      obtain rfl : s = before := Option.some.inj (hstream.symm.trans hbefore)
      rw [List.getElem?_set_self', hstream] at hafter
      obtain rfl : e.apply st.owner s = after := Option.some.inj hafter
      exact ((h s (mem_of_getElem? hstream)).under st.owner e.tape).apply e.call henabled
        (hok s hstream)
    · rw [List.getElem?_set_ne hi, hbefore] at hafter
      exact hstay (Option.some.inj hafter).symm

theorem flowing_of_reach (h : ownerSystem.Reach PayloadInOrder st) :
    ∀ s ∈ st.streams, s.ix.Flowing := by
  apply h.invariant
  · rintro st ⟨hunused, -⟩ s hs
    have hfresh := hunused s hs
    refine ⟨?_, ?_, hfresh.rcvbufSize⟩
    · intro node hnode
      rw [hfresh.queue] at hnode
      exact absurd hnode not_mem_nil
    · rw [hfresh.rcvbufUsed]
      exact zero_le
  · intro st e hflowing henabled hok s hs
    obtain ⟨i, hlt, hget⟩ := getElem_of_mem hs
    have hlength : (ownerStep st e).streams.length = st.streams.length := by
      rw [ownerStep]
      split
      · rfl
      · exact length_set
    have hbefore : st.streams[i]? = some st.streams[i] := List.getElem?_eq_getElem _
    exact (ownerStep_flowing hflowing henabled hok i _ s hbefore
      (List.getElem?_eq_some_iff.mpr ⟨hlt, hget⟩)).1

/-- Payload in order, a FIN beyond a hole, an old segment and a read. -/
def orderlyEvents : List QueueEvent :=
  [⟨0, .segment .established 0 [1, 2, 3] false, [1, 1, 1]⟩,
    ⟨0, .segment .established 5 [] true, [9, 9, 1]⟩,
    ⟨0, .segment .established 1 [2, 3] false, []⟩,
    ⟨0, .recv 2, []⟩]

end SnowTG.Tcp
