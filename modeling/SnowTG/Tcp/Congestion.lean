import SnowTG.Lib.Checked
import SnowTG.Lib.System
import SnowTG.Tcp.Sack

/-!
# Congestion control

NewReno and CUBIC with HyStart++ behind one dispatch layer.  Windows are words
whose arithmetic is kept as the source computes it, with a record of wrapping and
of division by zero.  Clock readings are 32-bit serial numbers whose differences
are used; delays are words like the windows.
-/

namespace SnowTG.Tcp.Cc

open SnowTG.Lib
open SnowTG.Lib.Checked (narrow add mul sub div mod)

/-- `UINT32_MAX`. -/
def uint32Max : Nat := 2 ^ 32 - 1

/-- `enum tcp_cc_loss_reason`. -/
inductive LossReason where
  | sack
  | dupack
  | rto
  deriving DecidableEq, Repr

/-- `struct tcp_cc_ack_event`, without the fields no algorithm reads. -/
structure AckEvent where
  ackSeq : Seq := 0
  sndNxt : Seq := 0
  ackedBytes : BitVec 32
  nowMs : BitVec 32 := 0
  rttSampleMs : BitVec 32 := 0
  rttSampleValid : Bool := false
  cwndLimited : Bool := false
  duplicateAck : Bool := false
  enteredRecovery : Bool := false
  partialAck : Bool := false
  newrenoRecovery : Bool := false
  inRecovery : Bool := false
  deriving DecidableEq, Repr

/-- `struct tcp_cc_loss_event`. -/
structure LossEvent where
  reason : LossReason
  flightSize : BitVec 32
  firstRtoForSeq : Bool := false
  deriving DecidableEq, Repr

/-- `struct tcp_cc_state`. -/
structure CcState where
  cwnd : Nat := 0
  ssthresh : Nat := 0
  initialWindow : Nat := 0
  caAcked : Nat := 0
  lastDataTxMs : BitVec 32 := 0
  deriving DecidableEq, Repr

/-- `tcp_cc_smss`. -/
def tcpCcSmss (sndMss : BitVec 16) : Nat := if sndMss ≠ 0 then sndMss.toNat else tcpDefaultMss

/-- `tcp_cc_add_sat`. -/
def tcpCcAddSat (left right : Nat) : Checked Nat := do
  let room ← sub 32 uint32Max left
  if room < right then pure uint32Max else add 32 left right

/-- `tcp_cc_initial_window`. -/
def tcpCcInitialWindow (smss : Nat) : Checked Nat :=
  if smss > 2190 then tcpCcAddSat smss smss
  else if smss > 1095 then do
    let two ← tcpCcAddSat smss smss
    tcpCcAddSat two smss
  else do
    let two ← tcpCcAddSat smss smss
    let twoMore ← tcpCcAddSat smss smss
    tcpCcAddSat two twoMore

/-- `tcp_cc_ssthresh`. -/
def tcpCcSsthresh (flight smss numerator denominator : Nat) : Checked Nat := do
  let product ← mul 64 flight numerator
  let quotient ← div product denominator
  let threshold ← narrow 32 quotient
  let floor ← tcpCcAddSat smss smss
  pure (if threshold > floor then threshold else floor)

/-- The window behind a partial ACK: deflated by what was acknowledged, then re-inflated. -/
def partialAckWindow (smss cwnd acked : Nat) : Checked Nat := do
  let deflated ← (if cwnd > acked then sub 32 cwnd acked else pure 0)
  let inflated ← (if acked ≥ smss then tcpCcAddSat deflated smss else pure deflated)
  pure (if inflated < smss then smss else inflated)

/-- `tcp_cc_newreno_recovery_ack`: whether recovery consumed the ACK. -/
def tcpCcNewrenoRecoveryAck (smss : Nat) (cc : CcState) (event : AckEvent) :
    Checked (Bool × CcState) :=
  if !event.inRecovery then pure (false, cc)
  else if !event.newrenoRecovery then pure (true, cc)
  else if event.enteredRecovery then pure (true, cc)
  else if event.partialAck then do
    let cwnd ← partialAckWindow smss cc.cwnd event.ackedBytes.toNat
    pure (true, { cc with cwnd := cwnd })
  else if event.duplicateAck then do
    let cwnd ← tcpCcAddSat cc.cwnd smss
    pure (true, { cc with cwnd := cwnd })
  else pure (true, cc)

/-- The part of `newreno_init` that `cubic_init` shares. -/
def initWindows (smss : Nat) (synRetransmitted : Bool) : Checked CcState := do
  let initialWindow ← tcpCcInitialWindow smss
  pure
    { cwnd := if synRetransmitted then smss else initialWindow
      ssthresh := uint32Max
      initialWindow := initialWindow }

/-- The window that recovery starts with. -/
def entryWindow (smss threshold : Nat) (reason : LossReason) : Checked Nat :=
  if reason = .dupack then do
    let two ← tcpCcAddSat smss smss
    let three ← tcpCcAddSat smss two
    tcpCcAddSat threshold three
  else pure threshold

section NewReno

/-- Loop of `newreno_on_ack`: one segment more for each window of acknowledged bytes. -/
def newrenoGrow (smss : Nat) : Nat → CcState → Checked CcState
  | 0, cc => pure cc
  | rounds + 1, cc =>
    if cc.cwnd ≠ uint32Max && cc.caAcked ≥ cc.cwnd then do
      let caAcked ← sub 32 cc.caAcked cc.cwnd
      let cwnd ← tcpCcAddSat cc.cwnd smss
      newrenoGrow smss rounds { cc with caAcked := caAcked, cwnd := cwnd }
    else pure cc

/-- `newreno_on_ack` behind the recovery test.  Every round of the loop takes at least one byte, so
there are no more rounds than bytes. -/
def newrenoOpen (smss : Nat) (cc : CcState) (acked : Nat) : Checked CcState :=
  if cc.cwnd < cc.ssthresh then do
    let cwnd ← tcpCcAddSat cc.cwnd (if acked < smss then acked else smss)
    pure { cc with cwnd := cwnd }
  else do
    let caAcked ← tcpCcAddSat cc.caAcked acked
    newrenoGrow smss caAcked { cc with caAcked := caAcked }

/-- `newreno_on_ack`. -/
def newrenoOnAck (smss : Nat) (cc : CcState) (event : AckEvent) : Checked CcState := do
  let recovery ← tcpCcNewrenoRecoveryAck smss cc event
  if recovery.1 || event.ackedBytes = 0 then pure recovery.2
  else newrenoOpen smss recovery.2 event.ackedBytes.toNat

/-- `newreno_on_loss` and `newreno_on_rto`. -/
def newrenoOnLoss (smss : Nat) (cc : CcState) (event : LossEvent) : Checked CcState := do
  let threshold ← tcpCcSsthresh event.flightSize.toNat smss 1 2
  if event.reason = .rto then
    pure { cc with
      ssthresh := if event.firstRtoForSeq then threshold else cc.ssthresh
      cwnd := smss
      caAcked := 0 }
  else do
    let cwnd ← entryWindow smss threshold event.reason
    pure { cc with ssthresh := threshold, cwnd := cwnd, caAcked := 0 }

/-- `newreno_on_recovery_exit`. -/
def newrenoOnRecoveryExit (cc : CcState) : CcState :=
  { cc with cwnd := if cc.cwnd > cc.ssthresh then cc.ssthresh else cc.cwnd, caAcked := 0 }

/-- `newreno_on_idle_restart`. -/
def newrenoOnIdleRestart (cc : CcState) : CcState :=
  { cc with
    cwnd := if cc.cwnd > cc.initialWindow then cc.initialWindow else cc.cwnd
    caAcked := 0 }

end NewReno

section Cubic

/-- `enum cubic_phase`. -/
inductive CubicPhase where
  | slowStart
  | css
  | avoidance
  deriving DecidableEq, Repr

/-- `struct cubic_state`, its flags as fields. -/
structure CubicState where
  cubicCredit : Nat := 0
  wMax : Nat := 0
  cwndPrior : Nat := 0
  cwndEpoch : Nat := 0
  wEst : Nat := 0
  kMs : Nat := 0
  epochStartMs : BitVec 32 := 0
  lastUpdateMs : BitVec 32 := 0
  roundEnd : Seq := 0
  lastRoundMinRtt : BitVec 32 := 0
  currentRoundMinRtt : BitVec 32 := 0
  cssBaselineMinRtt : BitVec 32 := 0
  sampleCount : BitVec 8 := 0
  cssRounds : Nat := 0
  phase : CubicPhase := .slowStart
  epochValid : Bool := false
  lastUpdateValid : Bool := false
  roundValid : Bool := false
  hystartDone : Bool := false
  afterTimeout : Bool := false
  deriving DecidableEq, Repr

/-- Loop of `cubic_root`. -/
def cubicRootFrom (value : Nat) : Nat → Nat → Nat → Checked Nat
  | 0, low, _ => pure low
  | rounds + 1, low, high =>
    if low < high then do
      let span ← sub 64 high low
      let rounded ← add 64 span 1
      let mid ← add 64 low (rounded / 2)
      let square ← mul 128 mid mid
      let cube ← mul 128 square mid
      if cube ≤ value then cubicRootFrom value rounds mid high
      else do
        let below ← sub 64 mid 1
        cubicRootFrom value rounds low below
    else pure low

/-- `cubic_root`; each round halves the search interval of 32-bit numbers. -/
def cubicRoot (value : Nat) : Checked Nat := do
  let low ← cubicRootFrom value 32 0 uint32Max
  narrow 32 low

/-- `cubic_k_ms`. -/
def cubicKMs (wMax cwndEpoch smss : Nat) : Checked Nat :=
  if wMax ≤ cwndEpoch || smss = 0 then pure 0
  else do
    let drop ← sub 32 wMax cwndEpoch
    let fifth ← mul 128 drop 5
    let scaled ← mul 128 fifth 1000000000
    let slope ← mul 128 2 smss
    let quotient ← div scaled slope
    cubicRoot quotient

/-- `cubic_window_at`. -/
def cubicWindowAt (ca : CubicState) (smss elapsedMs : Nat) : Checked Nat := do
  let distance := ((elapsedMs : Int) - ca.kMs).natAbs
  let square ← mul 128 distance distance
  let cube ← mul 128 square distance
  let slope ← mul 128 smss 2
  let scaled ← mul 128 cube slope
  let unit ← mul 128 5 1000000000
  let delta ← div scaled unit
  if elapsedMs < ca.kMs then
    if delta ≥ ca.wMax then pure 0
    else do
      let delta ← narrow 32 delta
      sub 32 ca.wMax delta
  else do
    let room ← sub 32 uint32Max ca.wMax
    if delta > room then pure uint32Max
    else do
      let delta ← narrow 32 delta
      add 32 ca.wMax delta

/-- `cubic_reset_epoch`. -/
def cubicResetEpoch (ca : CubicState) : CubicState :=
  { ca with
    cubicCredit := 0
    cwndEpoch := 0
    wEst := 0
    kMs := 0
    epochStartMs := 0
    lastUpdateMs := 0
    epochValid := false
    lastUpdateValid := false }

/-- `hystart_begin_round`. -/
def hystartBeginRound (ca : CubicState) (sndNxt : Seq) : CubicState :=
  { ca with
    roundEnd := sndNxt
    currentRoundMinRtt := BitVec.allOnes 32
    sampleCount := 0
    roundValid := true }

/-- The end of a round in conservative slow start: back to slow start, or on to avoidance after
five rounds. -/
def hystartFinishCss (cc : CcState) (ca : CubicState) : Checked (CcState × CubicState) :=
  if ca.currentRoundMinRtt < ca.cssBaselineMinRtt then
    pure (cc, { ca with phase := .slowStart, cssRounds := 0 })
  else do
    let cssRounds ← add 8 ca.cssRounds 1
    if cssRounds ≥ 5 then
      pure ({ cc with ssthresh := cc.cwnd },
        cubicResetEpoch { ca with
          cssRounds := cssRounds
          phase := .avoidance
          hystartDone := true
          cwndPrior := cc.cwnd })
    else pure (cc, { ca with cssRounds := cssRounds })

/-- `hystart_finish_round`. -/
def hystartFinishRound (cc : CcState) (ca : CubicState) : Checked (CcState × CubicState) :=
  if ca.sampleCount ≠ 0 then do
    let finished ← (if ca.phase = .css then hystartFinishCss cc ca else pure (cc, ca))
    pure (finished.1, { finished.2 with lastRoundMinRtt := finished.2.currentRoundMinRtt })
  else pure (cc, ca)

/-- The counters of a round behind the sample of one ACK. -/
def hystartCount (ca : CubicState) (rttSampleMs : BitVec 32) : CubicState :=
  { ca with
    currentRoundMinRtt :=
      if rttSampleMs < ca.currentRoundMinRtt then rttSampleMs else ca.currentRoundMinRtt
    sampleCount :=
      if ca.sampleCount ≠ BitVec.allOnes 8 then ca.sampleCount + 1 else ca.sampleCount }

/-- Enough samples to compare the delay with that of the last round. -/
def hystartTests (ca : CubicState) : Bool :=
  ca.phase = .slowStart && ca.lastRoundMinRtt ≠ 0 && ca.sampleCount ≥ 8

/-- By how much the delay has to grow, between 4 and 16 milliseconds. -/
def hystartThreshold (ca : CubicState) : BitVec 32 :=
  let threshold := ca.lastRoundMinRtt / 8
  let threshold := if threshold < 4 then 4 else threshold
  if threshold > 16 then 16 else threshold

/-- The sample of one ACK, and the test for a delay increase. -/
def hystartSample (ca : CubicState) (rttSampleMs : BitVec 32) : Checked CubicState :=
  let ca := hystartCount ca rttSampleMs
  if hystartTests ca then do
    let limit ← add 32 ca.lastRoundMinRtt.toNat (hystartThreshold ca).toNat
    if ca.currentRoundMinRtt.toNat ≥ limit then
      pure { ca with phase := .css, cssRounds := 0, cssBaselineMinRtt := ca.currentRoundMinRtt }
    else pure ca
  else pure ca

/-- `hystart_update`. -/
def hystartUpdate (cc : CcState) (ca : CubicState) (event : AckEvent) :
    Checked (CcState × CubicState) :=
  if ca.hystartDone || ca.phase = .avoidance || !event.rttSampleValid then pure (cc, ca)
  else if !ca.roundValid then do
    let ca ← hystartSample (hystartBeginRound ca event.sndNxt) event.rttSampleMs
    pure (cc, ca)
  else if !Serial.lt event.ackSeq ca.roundEnd then do
    let finished ← hystartFinishRound cc ca
    if finished.2.phase = .avoidance then pure finished
    else do
      let ca ← hystartSample (hystartBeginRound finished.2 event.sndNxt) event.rttSampleMs
      pure (finished.1, ca)
  else do
    let ca ← hystartSample ca event.rttSampleMs
    pure (cc, ca)

/-- `cubic_begin_epoch`. -/
def cubicBeginEpoch (smss : Nat) (cc : CcState) (ca : CubicState) (nowMs : BitVec 32) :
    Checked CubicState := do
  let ca := { ca with
    cwndEpoch := cc.cwnd
    wEst := cc.cwnd
    epochStartMs := nowMs
    lastUpdateMs := nowMs
    cubicCredit := 0
    epochValid := true
    lastUpdateValid := true }
  if ca.afterTimeout || ca.wMax = 0 then
    pure { ca with wMax := cc.cwnd, kMs := 0, afterTimeout := false }
  else do
    let kMs ← cubicKMs ca.wMax ca.cwndEpoch smss
    pure { ca with kMs := kMs }

/-- The growth of the Reno-friendly estimate. -/
def cubicFriendly (smss : Nat) (cc : CcState) (ca : CubicState) (acked : Nat) : Checked Nat := do
  let alphaNum := if ca.wEst ≥ ca.cwndPrior then 1 else 9
  let alphaDen := if ca.wEst ≥ ca.cwndPrior then 1 else 17
  let weighted ← mul 64 alphaNum acked
  let numerator ← mul 64 weighted smss
  let denominator ← mul 64 alphaDen (if cc.cwnd ≠ 0 then cc.cwnd else smss)
  let quotient ← div numerator denominator
  let increase ← narrow 32 quotient
  tcpCcAddSat ca.wEst increase

/-- The round-trip time the cubic target looks ahead. -/
def cubicRtt (srttMs : BitVec 32) (event : AckEvent) : BitVec 32 :=
  if srttMs ≠ 0 then srttMs else if event.rttSampleValid then event.rttSampleMs else 1

/-- The cubic target between the window and one and a half of it. -/
def cubicTarget (smss : Nat) (cc : CcState) (ca : CubicState) (event : AckEvent)
    (srttMs : BitVec 32) : Checked Nat := do
  let ahead ← add 32 (event.nowMs - ca.epochStartMs).toNat (cubicRtt srttMs event).toNat
  let target ← cubicWindowAt ca smss ahead
  let upper ← tcpCcAddSat cc.cwnd (cc.cwnd / 2)
  let target := if target < cc.cwnd then cc.cwnd else target
  pure (if target > upper then upper else target)

/-- The step towards the target, with the fraction kept as credit. -/
def cubicApproach (smss target : Nat) (cc : CcState) (ca : CubicState) :
    Checked (CcState × CubicState) :=
  if target > cc.cwnd && cc.cwnd ≠ uint32Max then do
    let gap ← sub 32 target cc.cwnd
    let earned ← mul 64 gap smss
    let credit ← add 64 ca.cubicCredit earned
    let quotient ← div credit cc.cwnd
    let increase ← narrow 32 quotient
    let rest ← mod credit cc.cwnd
    let cwnd ← tcpCcAddSat cc.cwnd increase
    pure ({ cc with cwnd := cwnd }, { ca with cubicCredit := rest })
  else pure (cc, ca)

/-- An ACK of a flow limited by its window, in an epoch that has begun. -/
def cubicGrow (smss : Nat) (cc : CcState) (ca : CubicState) (event : AckEvent)
    (srttMs : BitVec 32) : Checked (CcState × CubicState) := do
  let ca := { ca with lastUpdateMs := event.nowMs, lastUpdateValid := true }
  let wEst ← cubicFriendly smss cc ca event.ackedBytes.toNat
  let ca := { ca with wEst := wEst }
  let target ← cubicTarget smss cc ca event srttMs
  let grown ← cubicApproach smss target cc ca
  pure ({ grown.1 with
    cwnd := if grown.2.wEst > grown.1.cwnd then grown.2.wEst else grown.1.cwnd }, grown.2)

/-- An ACK of a flow limited by the application stops the clock of the epoch. -/
def cubicPause (ca : CubicState) (nowMs : BitVec 32) : CubicState :=
  { ca with
    epochStartMs :=
      if ca.lastUpdateValid then ca.epochStartMs + (nowMs - ca.lastUpdateMs) else ca.epochStartMs
    lastUpdateMs := nowMs
    lastUpdateValid := true }

/-- `cubic_avoidance_ack`. -/
def cubicAvoidanceAck (smss : Nat) (cc : CcState) (ca : CubicState) (event : AckEvent)
    (srttMs : BitVec 32) : Checked (CcState × CubicState) := do
  let ca ← (if !ca.epochValid then cubicBeginEpoch smss cc ca event.nowMs else pure ca)
  if !event.cwndLimited then pure (cc, cubicPause ca event.nowMs)
  else cubicGrow smss cc ca event srttMs

/-- The bytes slow start adds for one ACK. -/
def cubicSlowStartIncrease (smss : Nat) (phase : CubicPhase) (acked : Nat) : Checked Nat := do
  let wide ← mul 64 smss 8
  let cap := if wide > uint32Max then uint32Max else wide
  let increase := if acked < cap then acked else cap
  let increase := if phase = .css then increase / 4 else increase
  pure (if increase = 0 then 1 else increase)

/-- `cubic_on_ack` in slow start. -/
def cubicSlowStart (smss : Nat) (cc : CcState) (ca : CubicState) (event : AckEvent) :
    Checked (CcState × CubicState) := do
  let updated ← hystartUpdate cc ca event
  if !event.cwndLimited then pure updated
  else do
    let increase ← cubicSlowStartIncrease smss updated.2.phase event.ackedBytes.toNat
    let cwnd ← tcpCcAddSat updated.1.cwnd increase
    pure ({ updated.1 with cwnd := cwnd }, updated.2)

/-- `cubic_on_ack` behind the recovery test. -/
def cubicOpen (smss : Nat) (cc : CcState) (ca : CubicState) (event : AckEvent)
    (srttMs : BitVec 32) : Checked (CcState × CubicState) :=
  if cc.cwnd < cc.ssthresh && ca.phase ≠ .avoidance then cubicSlowStart smss cc ca event
  else if ca.phase ≠ .avoidance then
    cubicAvoidanceAck smss cc (cubicResetEpoch { ca with
      phase := .avoidance
      hystartDone := true
      cwndPrior := cc.cwnd }) event srttMs
  else cubicAvoidanceAck smss cc ca event srttMs

/-- `cubic_on_ack`. -/
def cubicOnAck (smss : Nat) (cc : CcState) (ca : CubicState) (event : AckEvent)
    (srttMs : BitVec 32) : Checked (CcState × CubicState) := do
  let recovery ← tcpCcNewrenoRecoveryAck smss cc event
  if recovery.1 || event.ackedBytes = 0 then pure (recovery.2, ca)
  else cubicOpen smss recovery.2 ca event srttMs

/-- The plateau behind a loss, with fast convergence. -/
def cubicPlateau (cc : CcState) (ca : CubicState) : Checked Nat :=
  if ca.wMax ≠ 0 && cc.cwnd < ca.wMax then do
    let product ← mul 64 cc.cwnd 17
    let quotient ← div product 20
    narrow 32 quotient
  else pure cc.cwnd

/-- `cubic_on_loss` and `cubic_on_rto`. -/
def cubicOnLoss (smss : Nat) (cc : CcState) (ca : CubicState) (event : LossEvent) :
    Checked (CcState × CubicState) := do
  let threshold ← tcpCcSsthresh event.flightSize.toNat smss 7 10
  if event.reason = .rto then
    pure
      ({ cc with
          ssthresh := if event.firstRtoForSeq then threshold else cc.ssthresh
          cwnd := smss },
        cubicResetEpoch { ca with
          cwndPrior := if event.firstRtoForSeq then cc.cwnd else ca.cwndPrior
          phase := .slowStart
          hystartDone := true
          afterTimeout := true
          roundValid := false })
  else do
    let wMax ← cubicPlateau cc ca
    let cwnd ← entryWindow smss threshold event.reason
    pure
      ({ cc with ssthresh := threshold, cwnd := cwnd, caAcked := 0 },
        cubicResetEpoch { ca with
          cwndPrior := cc.cwnd
          wMax := wMax
          phase := .avoidance
          hystartDone := true })

/-- `cubic_on_recovery_exit`. -/
def cubicOnRecoveryExit (cc : CcState) (ca : CubicState) : CcState × CubicState :=
  ({ cc with cwnd := if cc.cwnd > cc.ssthresh then cc.ssthresh else cc.cwnd, caAcked := 0 },
    cubicResetEpoch ca)

/-- `cubic_on_idle_restart`. -/
def cubicOnIdleRestart (cc : CcState) (ca : CubicState) : CcState × CubicState :=
  ({ cc with cwnd := if cc.cwnd > cc.initialWindow then cc.initialWindow else cc.cwnd },
    cubicResetEpoch ca)

end Cubic

section Dispatch

/-- The two callback tables. -/
inductive Algorithm where
  | newreno
  | cubic
  deriving DecidableEq, Repr

/-- The congestion control of a stream.  `inexact` records that some operation so far wrapped or
divided by zero. -/
structure CcStream where
  sndMss : BitVec 16
  algorithm : Algorithm
  cc : CcState := {}
  ca : CubicState := {}
  inexact : Bool := false
  deriving DecidableEq, Repr

def CcStream.smss (st : CcStream) : Nat := tcpCcSmss st.sndMss

inductive CcEvent where
  | setOps (algorithm : Algorithm) (synRetransmitted : Bool)
  | reset (synRetransmitted : Bool)
  | ack (event : AckEvent) (srttMs : BitVec 32)
  | packetSent (nowMs : BitVec 32)
  | loss (event : LossEvent)
  | rto (event : LossEvent)
  | recoveryExit
  | idleRestart (nowMs rtoMs : BitVec 32)
  deriving DecidableEq, Repr

/-- `newreno_init` and `cubic_init`. -/
def ccInit (smss : Nat) (synRetransmitted : Bool) : Checked (CcState × CubicState) := do
  let cc ← initWindows smss synRetransmitted
  pure (cc, {})

/-- The callback that an event is dispatched to. -/
def ccDispatch (st : CcStream) : CcEvent → Checked (CcState × CubicState)
  | .setOps _ synRetransmitted => ccInit st.smss synRetransmitted
  | .reset synRetransmitted => ccInit st.smss synRetransmitted
  | .ack event srttMs =>
    match st.algorithm with
    | .newreno => do
        let cc ← newrenoOnAck st.smss st.cc event
        pure (cc, st.ca)
    | .cubic => cubicOnAck st.smss st.cc st.ca event srttMs
  | .packetSent nowMs => pure ({ st.cc with lastDataTxMs := nowMs }, st.ca)
  | .loss event | .rto event =>
    match st.algorithm with
    | .newreno => do
        let cc ← newrenoOnLoss st.smss st.cc event
        pure (cc, st.ca)
    | .cubic => cubicOnLoss st.smss st.cc st.ca event
  | .recoveryExit =>
    match st.algorithm with
    | .newreno => pure (newrenoOnRecoveryExit st.cc, st.ca)
    | .cubic => pure (cubicOnRecoveryExit st.cc st.ca)
  | .idleRestart nowMs rtoMs =>
    if st.cc.lastDataTxMs ≠ 0 && nowMs - st.cc.lastDataTxMs > rtoMs then
      match st.algorithm with
      | .newreno => pure (newrenoOnIdleRestart st.cc, st.ca)
      | .cubic => pure (cubicOnIdleRestart st.cc st.ca)
    else pure (st.cc, st.ca)

/-- The algorithm after an event. -/
def CcEvent.algorithm (current : Algorithm) : CcEvent → Algorithm
  | .setOps algorithm _ => algorithm
  | _ => current

def ccStep (st : CcStream) (e : CcEvent) : CcStream :=
  { sndMss := st.sndMss
    algorithm := e.algorithm st.algorithm
    cc := (ccDispatch st e).value.1
    ca := (ccDispatch st e).value.2
    inexact := st.inexact || (ccDispatch st e).wrapped }

/-- Streams of any segment size; congestion control starts with the choice of an algorithm. -/
def ccSystem : System CcStream CcEvent where
  init st := ∃ fresh : CcStream, ∃ algorithm synRetransmitted, fresh.inexact = false ∧
    st = ccStep fresh (.setOps algorithm synRetransmitted)
  enabled _ _ := True
  step := ccStep

instance (st : CcStream) (e : CcEvent) : Decidable (ccSystem.enabled st e) :=
  inferInstanceAs (Decidable True)

end Dispatch

end SnowTG.Tcp.Cc
