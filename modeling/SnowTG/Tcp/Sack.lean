import SnowTG.Lib.Loop
import SnowTG.Tcp.Types

/-!
# The sender scoreboard

`tcp_sack.c`: the ranges the peer selectively acknowledged, the ranges sent
again, and the recovery variables that choose the next retransmission.  A
scoreboard is the part of `struct tcp_stream` these functions read and write.
A list of range nodes is a list here; every node of one list carries the same
flag, so the flag is not stored.
-/

namespace SnowTG.Tcp

open SnowTG.Lib

def tcpDefaultMss : Nat := 1460

/-- `TCP_SACK_MAX_BLOCKS`. -/
def tcpSackMaxBlocks : Nat := 4

/-- `TCP_SACK_SCORE_MAX_RANGES`. -/
def tcpSackScoreMaxRanges : Nat := 128

/-- `TCP_SACK_DUP_THRESH`. -/
def tcpSackDupThresh : Nat := 3

/-- `struct tcp_sack_range`. -/
abbrev SackRange := SackBlock

/-- `enum tcp_recovery_mode`. -/
inductive RecoveryMode where
  | normal
  | sack
  | rto
  | newreno
  deriving DecidableEq, Repr

/-- `enum tcp_recovery_tx_kind` of a candidate that is present. -/
inductive RecoveryTxKind where
  | retransmit
  | newData
  deriving DecidableEq, Repr

/-- `struct tcp_recovery_candidate`; the kind "none" is an absent candidate. -/
structure RecoveryCandidate where
  kind : RecoveryTxKind
  nextsegRule : Nat
  rescue : Bool
  seq : Seq
  stop : Seq
  deriving DecidableEq, Repr

/-- The fields of `struct tcp_stream` the scoreboard works on, `sack` included. -/
structure Scoreboard where
  sndUna : Seq
  sndMss : Nat := tcpDefaultMss
  sackPermitted : Bool := true
  sacked : List SackRange := []
  retransmitted : List SackRange := []
  rangeCount : Nat := 0
  degraded : Bool := false
  degradedUntil : Seq := 0
  mode : RecoveryMode := .normal
  highData : Seq := 0
  highRxt : Seq := 0
  rescueRxt : Seq := 0
  recoveryPoint : Seq := 0
  pipe : BitVec 32 := 0
  dupAcks : Nat := 0
  limitedTransmit : Bool := false
  pending : Option RecoveryCandidate := none
  env : Tape := []
  deriving DecidableEq, Repr

/-- `seq_gt` of `tcp_sack.c`: `seq_lt` with its arguments exchanged. -/
def seqGt (a b : Seq) : Bool := Serial.lt b a

/-- `seq_min`. -/
def seqMin (a b : Seq) : Seq := if Serial.lt a b then a else b

/-- The sender maximum segment size every function of the scoreboard falls back to. -/
def Scoreboard.smss (tp : Scoreboard) : Nat := if tp.sndMss ≠ 0 then tp.sndMss else tcpDefaultMss

/-- `range_alloc`: refused at the cap, otherwise answered by the environment. -/
def rangeAlloc (tp : Scoreboard) : Bool × Scoreboard :=
  if tp.rangeCount ≥ tcpSackScoreMaxRanges then (false, tp)
  else
    let (node, env) := tp.env.ask
    if node = 0 then (false, { tp with env := env })
    else (true, { tp with env := env, rangeCount := tp.rangeCount + 1 })

/-- `sack_degrade`. -/
def sackDegrade (tp : Scoreboard) : Scoreboard :=
  { tp with
    rangeCount := tp.rangeCount - tp.sacked.length - tp.retransmitted.length
    sacked := []
    retransmitted := []
    degraded := true
    degradedUntil := tp.highData
    mode := .normal
    pipe := 0
    dupAcks := 0
    limitedTransmit := false
    pending := none }

/-- Running values of the second loop of `range_insert`. -/
structure RangeMerge where
  left : Seq
  right : Seq
  newlyCovered : BitVec 32
  merged : Nat
  rest : List SackRange
  deriving DecidableEq, Repr

/-- Second loop of `range_insert`: absorb every node that does not start behind `right`. -/
def rangeMerge (originalLeft originalRight : Seq) :
    List SackRange → Seq → Seq → BitVec 32 → Nat → RangeMerge
  | [], left, right, newlyCovered, merged => ⟨left, right, newlyCovered, merged, []⟩
  | cur :: next, left, right, newlyCovered, merged =>
    if seqGt cur.left right then ⟨left, right, newlyCovered, merged, cur :: next⟩
    else
      let overlapLeft := if seqGt cur.left originalLeft then cur.left else originalLeft
      let overlapRight := if Serial.lt cur.right originalRight then cur.right else originalRight
      rangeMerge originalLeft originalRight next
        (if Serial.lt cur.left left then cur.left else left)
        (if seqGt cur.right right then cur.right else right)
        (if Serial.lt overlapLeft overlapRight then newlyCovered - (overlapRight - overlapLeft)
          else newlyCovered)
        (merged + 1)

/-- `UINT32_MAX`, the failure value of `range_insert`. -/
def rangeInsertFailed : BitVec 32 := BitVec.allOnes 32

/-- `range_insert` on one list of the scoreboard: newly covered bytes, the new list, and the
scoreboard with the node count updated.  The first absorbed node is reused, the others are
freed. -/
def rangeInsert (tp : Scoreboard) (ranges : List SackRange) (left right : Seq) :
    BitVec 32 × List SackRange × Scoreboard :=
  let pre := ranges.takeWhile fun cur => Serial.lt cur.right left
  let m := rangeMerge left right (ranges.dropWhile fun cur => Serial.lt cur.right left)
    left right (right - left) 0
  if m.merged = 0 then
    match rangeAlloc tp with
    | (false, tp) => (rangeInsertFailed, ranges, tp)
    | (true, tp) => (m.newlyCovered, pre ++ ⟨m.left, m.right⟩ :: m.rest, tp)
  else
    (m.newlyCovered, pre ++ ⟨m.left, m.right⟩ :: m.rest,
      { tp with rangeCount := tp.rangeCount - (m.merged - 1) })

/-- One node of `range_list_trim`. -/
def rangeTrim (left right : Seq) (cur : SackRange) : Option SackRange :=
  if !Serial.lt cur.left right || !Serial.lt left cur.right then none
  else some ⟨if Serial.lt cur.left left then left else cur.left,
    if seqGt cur.right right then right else cur.right⟩

/-- `range_list_trim`. -/
def rangeListTrim (left right : Seq) (ranges : List SackRange) : List SackRange :=
  ranges.filterMap (rangeTrim left right)

/-- `range_intersects`. -/
def rangeIntersects (left right : Seq) : List SackRange → Bool
  | [] => false
  | head :: next =>
    if !Serial.lt head.left right then false
    else if Serial.lt left head.right then true
    else rangeIntersects left right next

/-- `block_contains`. -/
def blockContains (outer inner : SackBlock) : Bool :=
  Serial.leq outer.left inner.left && Serial.leq inner.right outer.right

/-- `tcp_sack_state_init`. -/
def tcpSackStateInit (tp : Scoreboard) (initialSeq : Seq) : Scoreboard :=
  { tp with
    sacked := []
    retransmitted := []
    rangeCount := 0
    degraded := false
    degradedUntil := 0
    mode := .normal
    highData := initialSeq
    highRxt := initialSeq
    rescueRxt := initialSeq
    recoveryPoint := initialSeq
    pipe := 0
    dupAcks := 0
    limitedTransmit := false
    pending := none }

/-- `tcp_sack_state_reset`; the nodes are freed before the state is cleared. -/
def tcpSackStateReset (tp : Scoreboard) (initialSeq : Seq) : Scoreboard :=
  tcpSackStateInit tp initialSeq

/-- `tcp_sack_trim`. -/
def tcpSackTrim (tp : Scoreboard) (flightEnd : Seq) : Scoreboard :=
  let (sacked, retransmitted) :=
    if !Serial.lt tp.sndUna flightEnd then ([], [])
    else (rangeListTrim tp.sndUna flightEnd tp.sacked,
      rangeListTrim tp.sndUna flightEnd tp.retransmitted)
  let freed := tp.sacked.length - sacked.length + (tp.retransmitted.length - retransmitted.length)
  { tp with
    sacked := sacked
    retransmitted := retransmitted
    rangeCount := tp.rangeCount - freed
    degraded := tp.degraded && Serial.lt tp.sndUna tp.degradedUntil
    pending := tp.pending.filter fun pending =>
      Serial.lt pending.seq flightEnd && Serial.lt tp.sndUna pending.stop }

/-- `struct tcp_sack_ack_result`. -/
structure SackAckResult where
  newlySackedBytes : BitVec 32 := 0
  newSackInformation : Bool := false
  dsackValid : Bool := false
  dsack : SackBlock := ⟨0, 0⟩
  dsackCoversRetransmission : Bool := false
  recoveryExited : Bool := false
  deriving DecidableEq, Repr

/-- One block cut to the flight, as `tcp_sack_update` cuts it; `none` when nothing is left. -/
def sackClipBlock (sndUna flightEnd : Seq) (block : SackBlock) : Option SackBlock :=
  let left := if Serial.lt block.left sndUna then sndUna else block.left
  let right := if seqGt block.right flightEnd then flightEnd else block.right
  if Serial.lt left right then some ⟨left, right⟩ else none

/-- One round of the block loop of `tcp_sack_update`; `none` is the jump taken after an
allocation failure. -/
def sackInsertBlock (flightEnd : Seq) (block : SackBlock) (tp : Scoreboard) (newly : BitVec 32) :
    Option (BitVec 32) × Scoreboard :=
  match sackClipBlock tp.sndUna flightEnd block with
  | none => (some newly, tp)
  | some clipped =>
    let inserted := rangeInsert tp tp.sacked clipped.left clipped.right
    if inserted.1 = rangeInsertFailed then (none, sackDegrade inserted.2.2)
    else (some (newly + inserted.1), { inserted.2.2 with sacked := inserted.2.1 })

/-- Block loop of `tcp_sack_update`. -/
def sackInsertBlocks (flightEnd : Seq) :
    List SackBlock → Scoreboard → BitVec 32 → Option (BitVec 32) × Scoreboard :=
  tryEach (sackInsertBlock flightEnd)

/-- The RFC 2883 test on the first block of an option. -/
def sackFirstIsDsack (packetAck : Seq) : List SackBlock → Bool
  | [] => false
  | [first] => Serial.leq first.right packetAck
  | first :: second :: _ => Serial.leq first.right packetAck || blockContains second first

/-- The part of `tcp_sack_update` behind the label `recovery_exit`. -/
def sackRecoveryExit (tp : Scoreboard) (result : SackAckResult) : SackAckResult × Scoreboard :=
  if (tp.mode = .sack ∨ tp.mode = .rto) ∧ Serial.lt tp.sndUna tp.recoveryPoint = false then
    ({ result with recoveryExited := true },
      { tp with
        mode := .normal
        pipe := 0
        dupAcks := 0
        limitedTransmit := false
        pending := none })
  else (result, tp)

/-- The blocks of an option that are not duplicate reports. -/
def sackNewBlocks (packetAck : Seq) (blocks : List SackBlock) : List SackBlock :=
  if sackFirstIsDsack packetAck (blocks.take tcpSackMaxBlocks) then
    (blocks.take tcpSackMaxBlocks).tail
  else blocks.take tcpSackMaxBlocks

/-- What `tcp_sack_update` reports before it looks at new blocks. -/
def sackDsackResult (tp : Scoreboard) (firstIsDsack : Bool) (blocks : List SackBlock) :
    SackAckResult :=
  match firstIsDsack, blocks with
  | true, first :: _ =>
    { dsackValid := true
      dsack := first
      dsackCoversRetransmission := rangeIntersects first.left first.right tp.retransmitted }
  | _, _ => {}

/-- `tcp_sack_update`. -/
def tcpSackUpdate (tp : Scoreboard) (packetAck : Seq) (blocks : List SackBlock)
    (flightEnd : Seq) : SackAckResult × Scoreboard :=
  let tp := tcpSackTrim tp flightEnd
  let firstIsDsack := sackFirstIsDsack packetAck (blocks.take tcpSackMaxBlocks)
  let result := sackDsackResult tp firstIsDsack (blocks.take tcpSackMaxBlocks)
  if tp.degraded || !tp.sackPermitted || !Serial.lt tp.sndUna flightEnd then
    sackRecoveryExit tp result
  else
    match sackInsertBlocks flightEnd (sackNewBlocks packetAck blocks) tp 0 with
    | (none, tp) => sackRecoveryExit tp result
    | (some newly, tp) =>
      sackRecoveryExit tp
        { result with newlySackedBytes := newly, newSackInformation := newly != 0 }

/-- Loop of `tcp_sack_is_lost`. -/
def sackIsLostFrom (smss : Nat) (seq : Seq) : List SackRange → BitVec 32 → Nat → Bool
  | [], _, _ => false
  | r :: rest, bytesAbove, discontiguous =>
    if !seqGt r.right seq then sackIsLostFrom smss seq rest bytesAbove discontiguous
    else
      let left := if seqGt r.left seq then r.left else seq
      let bytesAbove :=
        if Serial.lt left r.right then bytesAbove + (r.right - left) else bytesAbove
      let discontiguous := if seqGt r.left seq then discontiguous + 1 else discontiguous
      if discontiguous ≥ tcpSackDupThresh ||
          bytesAbove.toNat > (tcpSackDupThresh - 1) * smss then true
      else sackIsLostFrom smss seq rest bytesAbove discontiguous

/-- `tcp_sack_is_lost`. -/
def tcpSackIsLost (tp : Scoreboard) (seq : Seq) : Bool :=
  sackIsLostFrom tp.smss seq tp.sacked 0 0

/-- Loop of `retransmitted_overlap`. -/
def retransmittedOverlapFrom (highRxt left right : Seq) :
    List SackRange → BitVec 32 → BitVec 32
  | [], bytes => bytes
  | r :: rest, bytes =>
    if !Serial.lt r.left right then bytes
    else if !Serial.lt left r.right then retransmittedOverlapFrom highRxt left right rest bytes
    else
      let l := if seqGt left r.left then left else r.left
      let rr := if Serial.lt right r.right then right else r.right
      let bytes :=
        if Serial.lt l rr && Serial.lt l highRxt then
          bytes + ((if seqGt rr highRxt then highRxt else rr) - l)
        else bytes
      retransmittedOverlapFrom highRxt left right rest bytes

/-- `retransmitted_overlap`. -/
def retransmittedOverlap (tp : Scoreboard) (left right : Seq) : BitVec 32 :=
  retransmittedOverlapFrom tp.highRxt left right tp.retransmitted 0

/-- Binary search of `pipe_for_unsacked` for the first byte that is not lost.  The interval is
halved in every round, so 33 rounds exhaust 32 bits. -/
def pipeFirstNotLost (tp : Scoreboard) (left : Seq) : Nat → Nat → Nat → Nat
  | 0, lo, _ => lo
  | rounds + 1, lo, hi =>
    if lo < hi then
      let mid := lo + (hi - lo) / 2
      if tcpSackIsLost tp (left + BitVec.ofNat 32 mid) then
        pipeFirstNotLost tp left rounds (mid + 1) hi
      else pipeFirstNotLost tp left rounds lo mid
    else lo

/-- `pipe_for_unsacked`. -/
def pipeForUnsacked (tp : Scoreboard) (left right : Seq) : BitVec 32 :=
  let pipe := retransmittedOverlap tp left right
  if !Serial.lt left right then pipe
  else if !tcpSackIsLost tp left then pipe + (right - left)
  else
    let lo := pipeFirstNotLost tp left 33 0 (right - left).toNat
    pipe + (right - (left + BitVec.ofNat 32 lo))

/-- Loop of `tcp_sack_set_pipe`: the cursor and the pipe so far. -/
def sackPipeFrom (tp : Scoreboard) (flightEnd : Seq) :
    List SackRange → Seq → BitVec 32 → Seq × BitVec 32
  | [], cursor, pipe => (cursor, pipe)
  | r :: rest, cursor, pipe =>
    if !Serial.lt cursor flightEnd then (cursor, pipe)
    else
      let pipe :=
        if Serial.lt cursor r.left then
          pipe + pipeForUnsacked tp cursor (seqMin r.left flightEnd)
        else pipe
      sackPipeFrom tp flightEnd rest (if seqGt r.right cursor then r.right else cursor) pipe

/-- `tcp_sack_set_pipe`. -/
def tcpSackSetPipe (tp : Scoreboard) (flightEnd : Seq) : BitVec 32 × Scoreboard :=
  let (cursor, pipe) := sackPipeFrom tp flightEnd tp.sacked tp.sndUna 0
  let pipe :=
    if Serial.lt cursor flightEnd then pipe + pipeForUnsacked tp cursor flightEnd else pipe
  (pipe, { tp with pipe := pipe })

/-- `candidate_set`. -/
def candidateSet (tp : Scoreboard) (kind : RecoveryTxKind) (rule : Nat) (rescue : Bool)
    (seq stop : Seq) : Bool × Scoreboard :=
  if !Serial.lt seq stop then (false, tp)
  else
    let stop := if (stop - seq).toNat > tp.smss then seq + BitVec.ofNat 32 tp.smss else stop
    (true, { tp with pending := some ⟨kind, rule, rescue, seq, stop⟩ })

/-- `find_unsacked`: the lowest part of the interval that no listed range covers. -/
def findUnsacked (right : Seq) : List SackRange → Seq → Option SackBlock
  | [], cursor => if Serial.lt cursor right then some ⟨cursor, right⟩ else none
  | r :: rest, cursor =>
    if !Serial.lt cursor right then none
    else if !Serial.lt r.right cursor && Serial.lt cursor r.left then
      some ⟨cursor, seqMin r.left right⟩
    else findUnsacked right rest (if seqGt r.right cursor then r.right else cursor)

/-- `highest_sacked`. -/
def highestSacked (tp : Scoreboard) : Seq :=
  tp.sacked.foldl (fun highest r => if seqGt r.right highest then r.right else highest) tp.sndUna

/-- Loop of `find_highest_unsacked`. -/
def findHighestUnsacked (right : Seq) :
    List SackRange → Seq → Option SackBlock → Option SackBlock
  | [], cursor, found => if Serial.lt cursor right then some ⟨cursor, right⟩ else found
  | r :: rest, cursor, found =>
    if !Serial.lt cursor right then found
    else
      findHighestUnsacked right rest (if seqGt r.right cursor then r.right else cursor)
        (if Serial.lt cursor r.left then some ⟨cursor, seqMin r.left right⟩ else found)

/-- `tcp_sack_enter_recovery`. -/
def tcpSackEnterRecovery (tp : Scoreboard) (mode : RecoveryMode) (flightEnd : Seq) : Scoreboard :=
  let stop := seqMin (tp.sndUna + BitVec.ofNat 32 tp.smss) flightEnd
  let tp := { tp with
    mode := mode
    recoveryPoint := flightEnd
    highRxt := tp.sndUna
    rescueRxt := tp.sndUna
    limitedTransmit := false }
  (candidateSet tp .retransmit 1 false tp.sndUna stop).2

/-- `tcp_sack_cancel_candidate`. -/
def tcpSackCancelCandidate (tp : Scoreboard) : Scoreboard := { tp with pending := none }

/-- `tcp_sack_schedule_newreno_partial`. -/
def tcpSackScheduleNewrenoPartial (tp : Scoreboard) (flightEnd : Seq) : Bool × Scoreboard :=
  if tp.mode ≠ .newreno || !Serial.lt tp.sndUna flightEnd then (false, tp)
  else
    let stop := seqMin (tp.sndUna + BitVec.ofNat 32 tp.smss) flightEnd
    candidateSet (tcpSackCancelCandidate tp) .retransmit 1 false tp.sndUna stop

/-- `tcp_sack_on_rto`. -/
def tcpSackOnRto (tp : Scoreboard) (flightEnd : Seq) : Scoreboard :=
  let tp := { tp with
    rangeCount := tp.rangeCount - tp.sacked.length
    sacked := []
    degraded := false
    dupAcks := 0 }
  tcpSackEnterRecovery tp .rto flightEnd

/-- Rule 1 loop of `tcp_sack_schedule_next`: the first hole whose first byte is lost.  Every round
but the last moves behind at least one range. -/
def nextLostHole (tp : Scoreboard) (highest : Seq) : Nat → Seq → Option SackBlock
  | 0, _ => none
  | rounds + 1, left =>
    match findUnsacked highest tp.sacked left with
    | none => none
    | some hole =>
      if tcpSackIsLost tp hole.left then some hole else nextLostHole tp highest rounds hole.right

/-- `tcp_sack_schedule_next`. -/
def tcpSackScheduleNext (tp : Scoreboard) (sndbufEnd : Seq) (allowNewData : Bool) :
    Bool × Scoreboard :=
  if tp.pending.isSome then (true, tp)
  else if tp.degraded then (false, tp)
  else
    match tp.mode with
    | .rto =>
      match findUnsacked tp.highData tp.sacked tp.sndUna with
      | some hole => candidateSet tp .retransmit 1 false hole.left hole.right
      | none => (false, tp)
    | .sack =>
      let highest := highestSacked tp
      let left := if seqGt tp.highRxt tp.sndUna then tp.highRxt else tp.sndUna
      match nextLostHole tp highest (tp.sacked.length + 1) left with
      | some hole => candidateSet tp .retransmit 1 false hole.left hole.right
      | none =>
        if allowNewData && Serial.lt tp.highData sndbufEnd then
          candidateSet tp .newData 2 false tp.highData sndbufEnd
        else
          match findUnsacked highest tp.sacked left with
          | some hole => candidateSet tp .retransmit 3 false hole.left hole.right
          | none =>
            if Serial.lt tp.sndUna tp.rescueRxt then (false, tp)
            else
              match findHighestUnsacked tp.highData tp.sacked tp.sndUna none with
              | some hole =>
                let start :=
                  if (hole.right - hole.left).toNat > tp.smss then
                    hole.right - BitVec.ofNat 32 tp.smss
                  else hole.left
                candidateSet tp .retransmit 4 true start hole.right
              | none => (false, tp)
    | _ => (false, tp)

/-- `tcp_sack_note_new_data`. -/
def tcpSackNoteNewData (tp : Scoreboard) (endSeq : Seq) : Scoreboard :=
  if seqGt endSeq tp.highData then { tp with highData := endSeq } else tp

/-- The last lines of `tcp_sack_commit_candidate`: account the sent bytes and clear the choice. -/
def sackCommitted (tp : Scoreboard) (sent : BitVec 32) : Scoreboard :=
  { tp with pipe := if tp.mode = .sack then tp.pipe + sent else tp.pipe, pending := none }

/-- `tcp_sack_commit_candidate`. -/
def tcpSackCommitCandidate (tp : Scoreboard) (sentEnd : Seq) : Scoreboard :=
  match tp.pending with
  | none => tp
  | some candidate =>
    if !Serial.lt candidate.seq sentEnd then tp
    else
      match candidate.kind with
      | .newData => sackCommitted (tcpSackNoteNewData tp sentEnd) (sentEnd - candidate.seq)
      | .retransmit =>
        let inserted := rangeInsert tp tp.retransmitted candidate.seq sentEnd
        if inserted.1 = rangeInsertFailed then sackDegrade inserted.2.2
        else
          let tp := { inserted.2.2 with retransmitted := inserted.2.1 }
          let tp :=
            if candidate.rescue then { tp with rescueRxt := tp.recoveryPoint }
            else if seqGt sentEnd tp.highRxt then { tp with highRxt := sentEnd }
            else tp
          sackCommitted tp (sentEnd - candidate.seq)

end SnowTG.Tcp
