import SnowTG.Tcp.Upkeep

/-!
# Freshness of the send window

Beside every run stands the newest acceptable acknowledgement under the ordering
rule of WL1 and WL2.  Only the handler of ESTABLISHED takes over the window of an
acknowledgement; the other states that still send keep the one they have.  So
`snd_wnd` is the newest advertised window as long as the peer advertises no
other window in those states.
-/

namespace SnowTG.Tcp

open SnowTG.Lib

variable {s t : Stream} {seg : Segment}

/-- A window advertisement: the numbers that order it and the scaled window. -/
structure Advert where
  seq : Seq
  ack : Seq
  window : Nat
  deriving DecidableEq, Repr

/-- What the segment advertises to the stream. -/
def Stream.advert (s : Stream) (seg : Segment) : Advert :=
  { seq := seg.seq, ack := seg.ackNum, window := (seg.window.setWidth 32 <<< s.sndWscale).toNat }

/-- The ordering rule of WL1 and WL2: `next` is at least as new. -/
def Advert.supersededBy (a next : Advert) : Bool :=
  Serial.lt a.seq next.seq || (a.seq = next.seq && Serial.leq a.ack next.ack)

/-- The segment is an acceptable acknowledgement, newer than `newest`. -/
def Advert.yieldsTo (newest : Advert) (s : Stream) (seg : Segment) : Bool :=
  s.handles seg && s.acceptsAck seg && newest.supersededBy (s.advert seg)

/-- The newest acceptable advertisement after one more segment. -/
def Advert.hear (newest : Advert) (s : Stream) (seg : Segment) : Advert :=
  if newest.yieldsTo s seg then s.advert seg else newest

/-- A sender and the newest acceptable acknowledgement it was sent. -/
structure Listener where
  sender : SenderState
  newest : Advert
  deriving DecidableEq, Repr

/-- One event, and what it adds to the acknowledgements heard. -/
def listenerStep (st : Listener) (e : SenderEvent) : Listener where
  sender := senderStep st.sender e
  newest :=
    match e.call with
    | .segment seg => st.newest.hear (st.sender.stream.within e.world) seg
    | _ => st.newest

/-- Runs of a sender whose window was set by the last segment of the handshake. -/
def listenerSystem (base : Seq) : System Listener SenderEvent where
  init st :=
    (senderSystem base).init st.sender ∧ st.sender.stream.sndWndValid = true ∧
      st.newest = { seq := st.sender.stream.sndWl1, ack := st.sender.stream.sndWl2
                    window := st.sender.stream.sndWnd }
  enabled st e := (senderSystem base).enabled st.sender e
  step := listenerStep

instance (base : Seq) (st : Listener) (e : SenderEvent) :
    Decidable ((listenerSystem base).enabled st e) :=
  inferInstanceAs (Decidable ((senderSystem base).enabled st.sender e))

/-- In a state that may still transmit, the window is the newest one advertised. -/
def Listener.Fresh (st : Listener) : Prop :=
  st.sender.stream.status.sendsPayload = true → st.sender.stream.sndWnd = st.newest.window

instance (st : Listener) : Decidable st.Fresh :=
  inferInstanceAs (Decidable (_ → _))

/-- The states that may still transmit but ignore windows. -/
def Status.ignoresWindow (status : Status) : Bool :=
  status.sendsPayload && status ≠ .established

/-- In a state that ignores windows, no newer acknowledgement advertises another window than the
one in use. -/
def SameWindow (st : Listener) (e : SenderEvent) : Prop :=
  match e.call with
  | .segment seg =>
    let s := st.sender.stream.within e.world
    s.status.ignoresWindow = true → st.newest.yieldsTo s seg = true →
      (s.advert seg).window = s.sndWnd
  | _ => True

instance (st : Listener) (e : SenderEvent) : Decidable (SameWindow st e) := by
  unfold SameWindow
  cases e.call <;> infer_instance

variable {base : Seq} {st : Listener} {e : SenderEvent}

/-- What carries freshness: in ESTABLISHED the numbers behind the window are those of the newest
acknowledgement. -/
structure Listener.Inv (base : Seq) (st : Listener) : Prop where
  sender : st.sender.Inv base
  fresh : st.Fresh
  ordered : st.sender.stream.status = .established →
    st.sender.stream.sndWndValid = true ∧ st.newest.seq = st.sender.stream.sndWl1 ∧
      st.newest.ack = st.sender.stream.sndWl2

theorem sendsPayload_iff_phase {status : Status} :
    status.sendsPayload = true ↔ status.phase = .sending ∨ status.phase = .closing := by
  cases status <;> decide

/-- A state that may still transmit is entered only from such a state. -/
theorem Stream.Move.sendsPayload (h : s.Move t) (ht : t.status.sendsPayload = true) :
    s.status.sendsPayload = true := by
  rw [sendsPayload_iff_phase] at ht ⊢
  cases h with
  | steady h | resent seg h | sent seg h => rwa [h.phase] at ht
  | acked ack h hphase => rwa [hphase] at ht
  | finAcked hclosing => exact .inr hclosing
  | drained h => simp [h.status, Status.phase] at ht
  | sentDrained seg h h' | finAssignedDrained h h' => simp [h'.status, Status.phase] at ht
  | finWaits h => exact .inl h.sending
  | finAssigned h => exact h.due.imp And.left And.left

theorem senderStep_stream (st : SenderState) (e : SenderEvent) :
    (senderStep st e).stream = (e.call.apply (st.stream.within e.world)).1 := rfl

theorem senderStep_sendsPayload {st : SenderState} (h : st.Inv base) (e : SenderEvent)
    (hsends : (senderStep st e).stream.status.sendsPayload = true) :
    st.stream.status.sendsPayload = true := by
  rw [senderStep_stream] at hsends
  by_cases hsend : ∃ data, e.call = .send data
  · obtain ⟨data, hcall⟩ := hsend
    rw [hcall] at hsends
    have hstatus := Stream.status_of_upkeep (send_upkeep (st.stream.within e.world) data)
    exact hstatus ▸ hsends
  · obtain ⟨hmove, -⟩ := apply_move (s := st.stream.within e.world) h.not_opening h.order
      e.call fun data hcall => hsend ⟨data, hcall⟩
    exact hmove.sendsPayload hsends

/-- While window and advertisement both stay, freshness does. -/
theorem Listener.Inv.keep (h : st.Inv base)
    (hkeep : st.sender.stream.Upkept (senderStep st.sender e).stream)
    (hnewest : (listenerStep st e).newest = st.newest) : (listenerStep st e).Inv base := by
  have hwindow := hkeep.window
  simp only [Stream.window, SendWindow.mk.injEq] at hwindow
  obtain ⟨hwnd, hwl1, hwl2, hvalid, -⟩ := hwindow
  refine ⟨senderStep_inv h.sender e, fun hsends => ?_, fun hestablished => ?_⟩
  · rw [hnewest]
    exact hwnd.trans (h.fresh (senderStep_sendsPayload h.sender e hsends))
  · obtain ⟨hvalid', hseq, hack⟩ := h.ordered (hkeep.established hestablished)
    rw [hnewest]
    exact ⟨hvalid.trans hvalid', hseq.trans hwl1.symm, hack.trans hwl2.symm⟩

/-- The rule of the code is the ordering rule once the stream has a window. -/
theorem takeWindow_eq {newest : Advert} (hvalid : s.sndWndValid = true)
    (hseq : newest.seq = s.sndWl1) (hack : newest.ack = s.sndWl2) :
    s.takeWindow seg =
      if s.acceptsAck seg && newest.supersededBy (s.advert seg) then
        { s with
          sndWnd := (s.advert seg).window
          sndWl1 := seg.seq
          sndWl2 := seg.ackNum
          sndWndValid := true }
      else s := by
  rw [Stream.takeWindow]
  cases s.acceptsAck seg with
  | false => rfl
  | true =>
    simp only [if_true, Bool.true_and, tcpUpdateSndWndLocal, hvalid, Bool.not_true, Bool.false_or,
      Advert.supersededBy, Stream.advert, hseq, hack]

/-- A segment handled in ESTABLISHED. -/
theorem Listener.Inv.step_established (h : st.Inv base)
    (hestablished : st.sender.stream.status = .established)
    (hhandles : (st.sender.stream.within e.world).handles seg = true)
    (hstream : (senderStep st.sender e).stream =
      tcpStateHandle (st.sender.stream.within e.world).ask.2 seg)
    (hnewest : (listenerStep st e).newest = st.newest.hear (st.sender.stream.within e.world) seg) :
    (listenerStep st e).Inv base := by
  obtain ⟨hvalid, hseq, hack⟩ := h.ordered hestablished
  have hkeep := stateEstablished_window (st.sender.stream.within e.world).ask.2 seg
  rw [← stateHandle_established (s := (st.sender.stream.within e.world).ask.2) hestablished,
    ← hstream, takeWindow_eq (s := (st.sender.stream.within e.world).ask.2) hvalid hseq hack] at hkeep
  have hhear : (listenerStep st e).newest =
      if (st.sender.stream.within e.world).ask.2.acceptsAck seg &&
          st.newest.supersededBy ((st.sender.stream.within e.world).ask.2.advert seg) then
        (st.sender.stream.within e.world).ask.2.advert seg
      else st.newest := by
    rw [hnewest, Advert.hear, Advert.yieldsTo, hhandles]
    rfl
  split_ifs at hkeep hhear
  · have hwindow := hkeep.window
    simp only [Stream.window, SendWindow.mk.injEq] at hwindow
    obtain ⟨hwnd, hwl1, hwl2, hvalid', -⟩ := hwindow
    refine ⟨senderStep_inv h.sender e, fun _ => ?_, fun _ => ?_⟩
    · rw [hhear]
      exact hwnd
    · rw [hhear]
      exact ⟨hvalid', hwl1.symm, hwl2.symm⟩
  · exact h.keep ⟨hkeep.window, hkeep.established, hkeep.guarded⟩ hhear

theorem Listener.Inv.step_segment (h : st.Inv base) (hcall : e.call = .segment seg)
    (hok : SameWindow st e) : (listenerStep st e).Inv base := by
  have hstream : (senderStep st.sender e).stream =
      tcpIngress (st.sender.stream.within e.world) seg := by
    rw [senderStep_stream, hcall]
    rfl
  have hnewest : (listenerStep st e).newest =
      st.newest.hear (st.sender.stream.within e.world) seg := by
    simp only [listenerStep, hcall]
  have hsame : st.sender.stream.Upkept (st.sender.stream.within e.world).ask.2 :=
    .of_upkeep rfl
  cases hhandles : (st.sender.stream.within e.world).handles seg with
  | false =>
    refine h.keep ?_ ?_
    · rw [hstream]
      have hkeep := tcpIngress_of_not_handles hhandles
      exact ⟨hkeep.window, hkeep.established, hkeep.guarded⟩
    · rw [hnewest, Advert.hear, Advert.yieldsTo, hhandles]
      rfl
  | true =>
    rw [tcpIngress_of_handles hhandles] at hstream
    by_cases hestablished : st.sender.stream.status = .established
    · exact h.step_established hestablished hhandles hstream hnewest
    have hkeep : st.sender.stream.Upkept (senderStep st.sender e).stream := by
      rw [hstream]
      exact hsame.trans
        (stateHandle_upkept (s := (st.sender.stream.within e.world).ask.2) hestablished seg)
    cases hyields : st.newest.yieldsTo (st.sender.stream.within e.world) seg with
    | false =>
      refine h.keep hkeep ?_
      rw [hnewest, Advert.hear, hyields]
      rfl
    | true =>
      -- the advertisement is not taken over, so it must repeat the window in use
      refine ⟨senderStep_inv h.sender e, fun hsends => ?_, fun hentered => ?_⟩
      · have hignores : (st.sender.stream.within e.world).status.ignoresWindow = true := by
          have hsent := senderStep_sendsPayload h.sender e hsends
          simp only [Status.ignoresWindow, Bool.and_eq_true, decide_eq_true_eq]
          exact ⟨hsent, hestablished⟩
        simp only [SameWindow, hcall] at hok
        rw [hnewest, Advert.hear, hyields, if_pos rfl, hok hignores hyields]
        exact congrArg SendWindow.wnd hkeep.window
      · exact absurd (hkeep.established hentered) hestablished

theorem Listener.Inv.step (h : st.Inv base) (e : SenderEvent) (hok : SameWindow st e) :
    (listenerStep st e).Inv base := by
  by_cases hsegment : ∃ seg, e.call = .segment seg
  · obtain ⟨seg, hcall⟩ := hsegment
    exact h.step_segment hcall hok
  · have hother : ∀ seg, e.call ≠ .segment seg := fun seg hcall => hsegment ⟨seg, hcall⟩
    have hkeep := apply_upkept (st.sender.stream.within e.world) e.call hother
    refine h.keep ⟨hkeep.window, hkeep.established, hkeep.guarded⟩ ?_
    simp only [listenerStep]

theorem listenerInit_inv (h : (listenerSystem base).init st) : st.Inv base := by
  obtain ⟨hinit, hvalid, hnewest⟩ := h
  refine ⟨senderInit_inv hinit, fun _ => by rw [hnewest], fun _ => ?_⟩
  rw [hnewest]
  exact ⟨hvalid, rfl, rfl⟩

/-- In every run in which no newer acknowledgement advertises another window while the stream is
in CLOSE_WAIT, FIN_WAIT_1, CLOSING or LAST_ACK, the window in use is the newest one advertised. -/
theorem window_fresh_of_same_window (h : (listenerSystem base).Reach SameWindow st) : st.Fresh :=
  (h.invariant (P := Listener.Inv base) (fun _ => listenerInit_inv)
    fun _ e hinv _ hok => hinv.step e hok).fresh

/-- A sender that has heard no acknowledgement but the one of the handshake. -/
def openListener (base : Seq) : Listener where
  sender := openSender base
  newest := { seq := 0, ack := base, window := 10 }

theorem openListener_init (base : Seq) : (listenerSystem base).init (openListener base) :=
  ⟨openSender_init base, rfl, rfl⟩

theorem openListener_run (base : Seq) (ok : Listener → SenderEvent → Prop)
    (events : List SenderEvent)
    (h : (listenerSystem base).Admissible ok (openListener base) events) :
    (listenerSystem base).Reach ok ((listenerSystem base).run (openListener base) events) :=
  (System.Reach.init (openListener_init base)).run h

/-- A wider window in ESTABLISHED, then the same one again in CLOSE_WAIT. -/
theorem window_fresh_after_peer_fin :
    ((listenerSystem 0).run (openListener 0)
      [⟨.segment { seq := 0, ackNum := 0, window := 20 }, passing⟩,
        ⟨.segment { seq := 0, ackNum := 0, fin := true, window := 20 }, passing⟩,
        ⟨.segment { seq := 1, ackNum := 0, window := 20 }, passing⟩]).Fresh :=
  window_fresh_of_same_window (openListener_run 0 SameWindow _ (by decide))

/-- The peer closes its direction and then closes its window: the stream stays in CLOSE_WAIT, may
still transmit, and goes on with the window of ten bytes. -/
theorem closeWait_window_stale :
    ∃ st, (listenerSystem 0).Reach (fun _ _ => True) st ∧
      st.sender.stream.status = .closeWait ∧ st.newest.window = 0 ∧
      st.sender.stream.sndWnd = 10 ∧ ¬st.Fresh :=
  ⟨_, openListener_run 0 (fun _ _ => True)
    [⟨.segment { seq := 0, ackNum := 0, fin := true, window := 10 }, passing⟩,
      ⟨.segment { seq := 1, ackNum := 0, window := 0 }, passing⟩] (by decide), by decide⟩

end SnowTG.Tcp
