import SnowTG.Tcp.Upkeep

/-!
# The retransmission timer

A stream that may still transmit and has something in flight has its timer
armed, after every event of every run.  A failure to arm the timer aborts the
stream, which leaves nothing in flight.
-/

namespace SnowTG.Tcp

variable {s : Stream}

theorem tcpIngress_guarded (h : s.Guarded) (seg : Segment) : (tcpIngress s seg).Guarded := by
  have htake : (s.ask.2.takeWindow seg).Guarded := by
    rw [Stream.takeWindow, tcpUpdateSndWndLocal]
    split_ifs <;> exact h
  cases hhandles : s.handles seg with
  | false => exact (tcpIngress_of_not_handles hhandles).guarded h
  | true =>
    rw [tcpIngress_of_handles hhandles]
    by_cases hestablished : s.status = .established
    · rw [stateHandle_established (s := s.ask.2) hestablished]
      exact (stateEstablished_window s.ask.2 seg).guarded htake
    · exact (stateHandle_upkept (s := s.ask.2) hestablished seg).guarded h

theorem apply_guarded (h : s.Guarded) (call : SenderCall) : (call.apply s).1.Guarded := by
  by_cases hsegment : ∃ seg, call = .segment seg
  · obtain ⟨seg, rfl⟩ := hsegment
    exact tcpIngress_guarded h seg
  · exact (apply_upkept s call fun seg hcall => hsegment ⟨seg, hcall⟩).guarded h

variable {base : Seq} {st : SenderState}

/-- After every event of every run, in a state that may still transmit: if `sent_seq` differs from
`snd_una`, the timer of the stream is armed. -/
theorem timer_armed_while_in_flight (h : SenderReachable base st) :
    st.stream.status.sendsPayload = true → st.stream.sentSeq ≠ st.stream.sndUna →
      st.stream.timerArmed = true := by
  have hguarded : st.stream.Guarded := by
    refine h.invariant (P := fun st => st.stream.Guarded) ?_ ?_
    · rintro st ⟨-, -, -, -, huna, hsent, -⟩ _ hflight
      exact absurd (huna.trans hsent.symm) hflight
    · intro st e hst _ _
      exact apply_guarded (s := st.stream.within e.world) hst e.call
  exact fun hsends hflight => hguarded hsends hflight.symm

/-- Eight bytes in flight. -/
theorem timer_armed_of_eight_in_flight :
    let st := (senderSystem 0xfffffffe).run (openSender 0xfffffffe) eightInFlight
    st.stream.sentSeq ≠ st.stream.sndUna ∧ st.stream.timerArmed = true :=
  ⟨by decide, timer_armed_while_in_flight (openSender_run 0xfffffffe eightInFlight (by decide))
    (by decide) (by decide)⟩

end SnowTG.Tcp
