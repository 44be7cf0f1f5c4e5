import SnowTG.Tcp.ReceiveRun
import SnowTG.Tcp.SenderSafety

/-!
# The two ends of a direction

What a sender puts on the wire reaches the receiver of another stack late, more
than once, in any order or never.  The receiver runs against the stream of any
later sender, since what was emitted stays emitted.
-/

namespace SnowTG.Tcp

open SnowTG.Lib List

/-- The segment has no FIN, and its payload is that of a segment of the log, in one packet and not
half the sequence space away from the `k` bytes accepted. -/
def Segment.OffWire (log : List Emission) (k : Nat) (seg : Segment) : Prop :=
  seg.payload.length < 2 ^ 16 ∧ seg.fin = false ∧
    (seg.payload ≠ [] → ∃ em ∈ log, seg.seq = em.seg.seq ∧ seg.payload = em.seg.payload ∧
      em.off < k + 2 ^ 31 ∧ k ≤ em.off + 2 ^ 31)

/-- Runs of a sender and a receiver from their handshake on; the sender may be told anything. -/
def linkSystem (base : Seq) :
    System (SenderState × ReceiverState) (SenderEvent ⊕ ReceiverEvent) where
  init st := (senderSystem base).init st.1 ∧ (receiverSystem ⟨base, [], false⟩).init st.2
  enabled st
    | .inl e => (senderSystem base).enabled st.1 e
    | .inr (.segment seg _) => seg.OffWire st.1.log st.2.accepted
    | .inr (.recv _ _) => True
  step st
    | .inl e => (senderStep st.1 e, st.2)
    | .inr e => (st.1, receiverStep st.2 e)

variable {base : Seq} {st : SenderState × ReceiverState}

theorem Segment.OffWire.agrees {log : List Emission} {k : Nat} {seg : Segment} {snd : SenderState}
    (h : seg.OffWire log k) (hsnd : SenderReachable base snd) (hlog : log ⊆ snd.log) :
    seg.Agrees ⟨base, snd.accepted, false⟩ k := by
  obtain ⟨hlen, hfin, hwire⟩ := h
  refine ⟨hlen, ?_⟩
  by_cases hnil : seg.payload = []
  · exact .inl ⟨hnil, hfin⟩
  · obtain ⟨em, hem, hseq, hpayload, hahead, hback⟩ := hwire hnil
    obtain ⟨hpos, hbytes⟩ := (senderReachable_inv hsnd).log.carries em (hlog hem) (hpayload ▸ hnil)
    rw [← hpayload] at hbytes
    have hroom := hbytes.length_le
    rw [length_drop] at hroom
    have hsome := length_pos_of_ne_nil hnil
    refine .inr (.inr ⟨em.off, hseq.trans hpos, ⟨hbytes, ?_, by simp [hfin]⟩, hahead, hback⟩)
    dsimp only
    omega

theorem linkSystem_ends (h : (linkSystem base).Reach (fun _ _ => True) st) :
    SenderReachable base st.1 ∧ ∀ snd, SenderReachable base snd → st.1.log ⊆ snd.log →
      ReceiverReachable ⟨base, snd.accepted, false⟩ st.2 := by
  induction h with
  | init hinit => exact ⟨.init hinit.1, fun _ _ _ => .init hinit.2⟩
  | @step st e _ hen _ ih =>
    obtain ⟨hsender, hreceiver⟩ := ih
    rcases e with e | e
    · refine ⟨hsender.after e hen trivial, fun snd hsnd hlog => hreceiver snd hsnd ?_⟩
      exact fun em hem => hlog (mem_append_left _ hem)
    · refine ⟨hsender, fun snd hsnd hlog => (hreceiver snd hsnd hlog).after e ?_ trivial⟩
      cases e with
      | segment seg w => exact hen.agrees hsnd hlog
      | recv len w => trivial

/-- In every run of the two ends, what `tcp_recv` has returned at the one is a prefix of what
`tcp_send` has accepted at the other. -/
theorem delivered_bytes_were_sent (h : (linkSystem base).Reach (fun _ _ => True) st) :
    st.2.got <+: st.1.accepted := by
  obtain ⟨hsender, hreceiver⟩ := linkSystem_ends h
  obtain ⟨held, -, ⟨k, hok⟩ | hbroken⟩ :=
    receiverReachable_ok (hreceiver st.1 hsender (Subset.refl _))
  · have hall := take_prefix k st.1.accepted
    rw [← hok.rx.bytes] at hall
    exact (prefix_append _ _).trans hall
  · obtain ⟨k, -, hgot, -⟩ := hbroken.position
    exact hgot.trans (List.take_prefix _ _)

/-- The first of two segments crosses the wrap and is read. -/
theorem delivered_bytes_across_wrap :
    let w : Surroundings := { env := 0 :: replicate 8 1, rxEnv := replicate 8 1 }
    let st := (linkSystem 0xfffffffe).run (openSender 0xfffffffe, idleReceiver)
      (eightInFlight.map .inl ++ [.inr (.segment
        { seq := 0xfffffffe, ackNum := 0, ack := false, payload := [1, 2, 3, 4] } w),
        .inr (.recv 6 w)])
    st.2.got = [1, 2, 3, 4] ∧ st.2.got <+: st.1.accepted := by
  have hinit : (linkSystem 0xfffffffe).init (openSender 0xfffffffe, idleReceiver) :=
    ⟨openSender_init _, .inl rfl, rfl, rfl, rfl, rfl, rfl, rfl, rfl, rfl⟩
  refine ⟨by decide, delivered_bytes_were_sent ((System.Reach.init hinit).run ?_)⟩
  refine ⟨⟨rfl, rfl⟩, trivial, trivial, trivial, trivial, trivial, ⟨by decide, rfl, fun _ => ?_⟩,
    trivial, trivial, trivial, trivial⟩
  exact ⟨⟨0, { seq := 0xfffffffe, ack := 0, payload := [1, 2, 3, 4], optLen := 1 }⟩, by decide⟩

end SnowTG.Tcp
