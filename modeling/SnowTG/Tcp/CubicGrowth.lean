import SnowTG.Tcp.CongestionSafety

/-!
# Growth of the CUBIC window

Outside recovery no ACK shrinks the window, and each phase bounds what one ACK
adds.  The Reno-friendly estimate stays within the window while the epoch lasts,
because an epoch never lasts into recovery.
-/

namespace SnowTG.Tcp.Cc

open SnowTG.Lib SnowTG.Lib.Checked

/-- The event is an ACK in recovery. -/
def CcEvent.inRecovery : CcEvent → Bool
  | .ack event _ => event.inRecovery
  | _ => false

/-- Whether the stack is in recovery after an event; an ACK outside recovery shows that it has
left. -/
def CcEvent.recovering (current : Bool) : CcEvent → Bool
  | .loss _ | .rto _ => true
  | .ack event _ => current && event.inRecovery
  | .packetSent _ | .idleRestart _ _ => current
  | .setOps _ _ | .reset _ | .recoveryExit => false

/-- Congestion control under a stack whose recovery begins with a loss. -/
def recoverySystem : System (CcStream × Bool) CcEvent where
  init s := ccSystem.init s.1 ∧ s.2 = false
  enabled s e := e.inRecovery = true → s.2 = true
  step s e := (ccStep s.1 e, e.recovering s.2)

instance (s : CcStream × Bool) (e : CcEvent) : Decidable (recoverySystem.enabled s e) :=
  inferInstanceAs (Decidable (_ → _))

variable {st : CcStream} {e : CcEvent} {event : AckEvent} {srttMs : BitVec 32} {recovering : Bool}

/-- An epoch lasts only for CUBIC and outside recovery. -/
structure Steady (s : CcStream × Bool) : Prop where
  fits : s.1.Fits s.1.smss
  normal : s.1.ca.epochValid = true → s.1.algorithm = .cubic ∧ s.2 = false
  within : s.1.ca.Within s.1.cc.cwnd

/-- An ACK in recovery leaves CUBIC's own state, any other ACK opens the window. -/
theorem ccDispatch_ack (hcubic : st.algorithm = .cubic) (h : st.Fits st.smss) :
    (event.inRecovery = true → (ccDispatch st (.ack event srttMs)).value.2 = st.ca) ∧
      (event.inRecovery = false → st.ca.Within st.cc.cwnd →
        Grown st.smss event.ackedBytes.toNat st.cc st.ca
          (ccDispatch st (.ack event srttMs)).value) := by
  obtain ⟨hpos, hsmss⟩ := smss_bounds st.sndMss
  rw [ccDispatch, hcubic]
  exact (@cubicOnAck_yields False _ _ _ _ _ hpos hsmss h.windows h.state _
    (fun _ _ _ _ => h.windows.cwnd_ge) False.elim False.elim).value.2

/-- An event that leaves no epoch leaves nothing to keep. -/
theorem Steady.of_invalid (hfits : (ccStep st e).Fits st.smss)
    (hnone : (ccDispatch st e).value.2.epochValid = false) :
    Steady (recoverySystem.step (st, recovering) e) :=
  ⟨hfits, fun hvalid => absurd hvalid (by simp [recoverySystem, ccStep, hnone]),
    fun hvalid => absurd hvalid (by simp [recoverySystem, ccStep, hnone])⟩

/-- No event leaves an epoch in recovery or with NewReno. -/
theorem Steady.step (h : Steady (st, recovering))
    (hen : recoverySystem.enabled (st, recovering) e) :
    Steady (recoverySystem.step (st, recovering) e) := by
  obtain ⟨hfits, hnormal, hwithin⟩ := h
  dsimp only at hfits hnormal hwithin
  have hnext := ccStep_fits_segment hfits e
  cases halgorithm : st.algorithm with
  | newreno =>
    have hnone : st.ca.epochValid = false := by
      by_contra hvalid
      simp_all
    refine .of_invalid hnext ?_
    cases e <;> simp only [ccDispatch, ccInit, halgorithm, bind_value, pure_value, hnone]
    split_ifs <;> exact hnone
  | cubic =>
    cases e with
    | setOps algorithm synRetransmitted | reset synRetransmitted => exact .of_invalid hnext rfl
    | packetSent nowMs => exact ⟨hnext, hnormal, hwithin⟩
    | recoveryExit => exact .of_invalid hnext (by rw [ccDispatch, halgorithm]; rfl)
    | loss event | rto event =>
      refine .of_invalid hnext ?_
      rw [ccDispatch, halgorithm]
      dsimp only
      rw [cubicOnLoss, bind_value]
      split_ifs <;> rfl
    | idleRestart nowMs rtoMs =>
      by_cases hidle : st.cc.lastDataTxMs ≠ 0 && nowMs - st.cc.lastDataTxMs > rtoMs
      · refine .of_invalid hnext ?_
        rw [ccDispatch, if_pos hidle, halgorithm]
        rfl
      · have hsame : ccDispatch st (.idleRestart nowMs rtoMs) = pure (st.cc, st.ca) := if_neg hidle
        constructor
        · exact hnext
        all_goals
          dsimp only [recoverySystem, ccStep]
          rw [hsame]
          assumption
    | ack event srttMs =>
      obtain ⟨hkept, hgrown⟩ := @ccDispatch_ack st event srttMs halgorithm hfits
      cases hin : event.inRecovery with
      | false =>
        refine ⟨hnext, fun _ => ⟨halgorithm, ?_⟩, (hgrown hin hwithin).within⟩
        change (recovering && event.inRecovery) = false
        rw [hin, Bool.and_false]
      | true =>
        refine .of_invalid hnext ?_
        rw [hkept hin]
        by_contra hvalid
        simp_all [recoverySystem, CcEvent.inRecovery]

/-- An ACK outside recovery never shrinks the window of a CUBIC stream, the friendly estimate of a
valid epoch is within the window, and each phase bounds the growth; the bound of conservative slow
start holds for the ACKs after which it lasts. -/
theorem cubic_window_growth {s : CcStream × Bool} (h : recoverySystem.Reach (fun _ _ => True) s)
    (hcubic : s.1.algorithm = .cubic) (event : AckEvent) (hout : event.inRecovery = false)
    (srttMs : BitVec 32) :
    s.1.ca.Within s.1.cc.cwnd ∧ Grown s.1.smss event.ackedBytes.toNat s.1.cc s.1.ca
      ((ccStep s.1 (.ack event srttMs)).cc, (ccStep s.1 (.ack event srttMs)).ca) := by
  have hsteady : Steady s := by
    apply h.invariant
    · rintro ⟨st, _⟩ ⟨hinit, rfl⟩
      have hfits : st.Fits st.smss := (ccInit_fits hinit (by dsimp only; omega)).1
      obtain ⟨fresh, algorithm, synRetransmitted, _, rfl⟩ := hinit
      exact @Steady.of_invalid fresh (.setOps algorithm synRetransmitted) false hfits rfl
    · rintro ⟨st, recovering⟩ e hsteady hen _
      exact hsteady.step hen
  exact ⟨hsteady.within, (ccDispatch_ack hcubic hsteady.fits).2 hout hsteady.within⟩

/-- The ACK of one full segment of a flow limited by its window. -/
def segmentAck (ackSeq sndNxt : Seq) : AckEvent :=
  { ackSeq := ackSeq, sndNxt := sndNxt, ackedBytes := 1460, rttSampleMs := 200,
    rttSampleValid := true, cwndLimited := true }

theorem cautious_recovery_run (events : List CcEvent)
    (h : recoverySystem.Admissible (fun _ _ => True) (cautiousStream .cubic, false) events) :
    recoverySystem.Reach (fun _ _ => True)
      (recoverySystem.run (cautiousStream .cubic, false) events) :=
  .run (.init ⟨⟨_, .cubic, true, rfl, rfl⟩, rfl⟩) h

/-- Two seconds after a loss. -/
theorem cubic_window_growth_acked :
    let s := recoverySystem.run (cautiousStream .cubic, false) (ackedLater 2000)
    s.1.ca.epochValid = true ∧ s.1.ca.Within s.1.cc.cwnd ∧ Grown s.1.smss 1460 s.1.cc s.1.ca
      ((ccStep s.1 (.ack (segmentAck 1 2) 0)).cc, (ccStep s.1 (.ack (segmentAck 1 2) 0)).ca) :=
  ⟨by decide +kernel, cubic_window_growth (cautious_recovery_run _ (by decide +kernel))
    (by decide +kernel) (segmentAck 1 2) rfl 0⟩

/-- The ACK that ends conservative slow start grows the window by the undivided bound. -/
theorem css_end_undivided :
    ∃ st, recoverySystem.Reach (fun _ _ => True) (st, false) ∧ st.algorithm = .cubic ∧
      (st.cc.cwnd < st.cc.ssthresh ∧ st.ca.phase = .css) ∧
      st.cc.cwnd + max 1 (min 1460 (8 * st.smss) / 4) <
        (ccStep st (.ack (segmentAck 60 70) 0)).cc.cwnd :=
  ⟨_, cautious_recovery_run delayDoubles.dropLast (by decide +kernel), by decide +kernel⟩

end SnowTG.Tcp.Cc
