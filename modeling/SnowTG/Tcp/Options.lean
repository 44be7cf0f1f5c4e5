import SnowTG.Lib.Bytes
import SnowTG.Tcp.OfoRun

/-!
# TCP options

`tcp_options.c`: the blocks a receiver reports, the encoders of the options of a
SYN and of an established segment, and the parser.  A fragment is the part of
`struct tcp_fragment` these functions and `tcp_build_pkt` read.
-/

namespace SnowTG.Tcp.Options

open SnowTG.Lib

/-- `TCP_MAX_OPTIONS` words of options. -/
def tcpMaxOptions : Nat := 10

def tcpWscaleMax : Nat := 14

/-- `TCP_MIN_MSS`. -/
def tcpMinMss : Nat := 536

/-- The flags, the data offset and the options of a fragment. -/
structure Fragment where
  syn : Bool
  ack : Bool
  dataOff : BitVec 8 := 0x50
  optLen : Nat := 0
  options : List UInt8 := List.replicate 40 0
  deriving DecidableEq, Repr

/-- The fields of `struct tcp_stream` that options are built from. -/
structure OptionStream where
  ix : IndexedRx
  /-- The first `sack_history_count` entries of `sack_history`. -/
  sackHistory : List SackBlock := []
  rcvWscale : UInt8 := 0
  timestampsOk : Bool := false
  tsRecent : BitVec 32 := 0
  tsLastVal : BitVec 32 := 0
  sackLocalOffered : Bool := false
  sackPeerPermitted : Bool := false
  deriving DecidableEq, Repr

/-- Change the receive side. -/
def OptionStream.setRx (st : OptionStream) (rx : Rx) : OptionStream :=
  { st with ix := { st.ix with rx := rx } }

/-- Loop of `tcp_choose_rcv_wscale`, with the steps left to `TCP_WSCALE_MAX`. -/
def tcpChooseRcvWscaleFrom (rcvbufSize : Nat) : Nat → Nat → Nat
  | 0, scale => scale
  | left + 1, scale =>
    if rcvbufSize >>> scale > 0xffff then tcpChooseRcvWscaleFrom rcvbufSize left (scale + 1)
    else scale

/-- `tcp_choose_rcv_wscale`. -/
def tcpChooseRcvWscale (rcvbufSize : Nat) : Nat :=
  tcpChooseRcvWscaleFrom rcvbufSize tcpWscaleMax 0

section Encoding

/-- `tcp_options_append`; `none` is the return code -1. -/
def tcpOptionsAppend (f : Fragment) (data : List UInt8) : Option Fragment :=
  let offset := f.optLen * 4
  if offset + data.length > tcpMaxOptions * 4 then none
  else some { f with
    options := Bytes.overwrite f.options offset data
    optLen := (offset + data.length + 3) / 4 }

/-- The bytes of the MSS option. -/
def mssOption (mss : BitVec 16) : List UInt8 := [2, 4] ++ Bytes.be16 mss

/-- The bytes of the Window Scale option behind one NOP. -/
def wscaleOption (wscale : UInt8) : List UInt8 := [1, 3, 3, wscale]

/-- The bytes of the Timestamp option behind two NOPs. -/
def timestampOption (tsval tsecr : BitVec 32) : List UInt8 :=
  [1, 1, 8, 10] ++ Bytes.be32 tsval ++ Bytes.be32 tsecr

/-- The bytes of the SACK-Permitted option. -/
def sackPermittedOption : List UInt8 := [4, 2]

@[simp] theorem length_mssOption (mss : BitVec 16) : (mssOption mss).length = 4 := rfl

@[simp] theorem length_wscaleOption (wscale : UInt8) : (wscaleOption wscale).length = 4 := rfl

@[simp] theorem length_timestampOption (tsval tsecr : BitVec 32) :
    (timestampOption tsval tsecr).length = 12 := rfl

@[simp] theorem length_sackPermittedOption : sackPermittedOption.length = 2 := rfl

/-- `tcp_options_emit_mss`. -/
def tcpOptionsEmitMss (f : Fragment) (mss : BitVec 16) : Option Fragment :=
  tcpOptionsAppend f (mssOption mss)

/-- `tcp_options_emit_wscale`. -/
def tcpOptionsEmitWscale (f : Fragment) (wscale : UInt8) : Option Fragment :=
  tcpOptionsAppend f (wscaleOption wscale)

/-- `tcp_options_emit_timestamp`. -/
def tcpOptionsEmitTimestamp (f : Fragment) (tsval tsecr : BitVec 32) : Option Fragment :=
  tcpOptionsAppend f (timestampOption tsval tsecr)

/-- `tcp_options_emit_sack_permitted`. -/
def tcpOptionsEmitSackPermitted (f : Fragment) : Option Fragment :=
  tcpOptionsAppend f sackPermittedOption

/-- An encoder that runs only when its option is wanted. -/
def emitIf (wanted : Bool) (emit : Fragment → Option Fragment) (f : Fragment) : Option Fragment :=
  if wanted then emit f else some f

/-- `tcp_options_finish`. -/
def tcpOptionsFinish (f : Fragment) : Fragment :=
  { f with dataOff := BitVec.ofNat 8 ((5 + f.optLen) <<< 4) }

/-- The cleared option area both encoders start from. -/
def Fragment.clear (f : Fragment) : Fragment :=
  { f with options := List.replicate 40 0, optLen := 0 }

end Encoding

section Report

/-- `tcp_options_add_distinct`. -/
def tcpOptionsAddDistinct (capacity : Nat) (out : List SackBlock) (block : SackBlock) :
    List SackBlock :=
  if out.any fun emitted => blockContains emitted block then out
  else if out.length ≥ capacity then out
  else out ++ [block]

/-- `tcp_options_history_push`. -/
def tcpOptionsHistoryPush (history : List SackBlock) (block : SackBlock) : List SackBlock :=
  match history.findIdx? fun old => blockContains old block || blockContains block old with
  | some existing => block :: history.eraseIdx existing
  | none => (block :: history).take tcpSackMaxBlocks

/-- The first loop of `tcp_options_collect_sacks`: out-of-order ranges above `recv_ack`, those that
touch or overlap merged.  The accumulator has the last block first. -/
def normalizeSacks (recvAck : Seq) : List OfoSeg → List SackBlock → List SackBlock
  | [], acc => acc.reverse
  | seg :: rest, acc =>
    if seg.data.length = 0 || !Serial.gt seg.endSeq recvAck then normalizeSacks recvAck rest acc
    else
      let left := if Serial.gt recvAck seg.seq then recvAck else seg.seq
      match acc with
      | [] => normalizeSacks recvAck rest [⟨left, seg.endSeq⟩]
      | last :: older =>
        if !Serial.gt left last.right then
          let right := if Serial.gt seg.endSeq last.right then seg.endSeq else last.right
          normalizeSacks recvAck rest (⟨last.left, right⟩ :: older)
        else if acc.length = tcpOfoMaxSegs then acc.reverse
        else normalizeSacks recvAck rest (⟨left, seg.endSeq⟩ :: last :: older)

/-- The report of a duplicate: its range, and for one above `recv_ack` the block around it. -/
def dsackBlocks (rx : Rx) (normalized : List SackBlock) (capacity : Nat) : List SackBlock :=
  let out := tcpOptionsAddDistinct capacity [] rx.dsackBlock
  if Serial.gt rx.dsackBlock.right rx.recvAck then
    match normalized.find? fun block => blockContains block rx.dsackBlock with
    | some block => tcpOptionsAddDistinct capacity out block
    | none => out
  else out

/-- The block the last queued segment lies in. -/
def recentBlock (rx : Rx) (normalized : List SackBlock) : Option SackBlock :=
  if rx.sackRecentValid then
    normalized.find? fun block =>
      Serial.gt block.right rx.sackRecent.left && Serial.gt rx.sackRecent.right block.left
  else none

/-- One round of the loop over the history. -/
def addFromHistory (normalized : List SackBlock) (capacity : Nat) (out : List SackBlock)
    (old : SackBlock) : List SackBlock :=
  if out.length < capacity then
    match normalized.find? fun block => blockContains block old with
    | some block => tcpOptionsAddDistinct capacity out block
    | none => out
  else out

/-- One round of the loop over the remaining blocks. -/
def addRemaining (capacity : Nat) (out : List SackBlock) (block : SackBlock) : List SackBlock :=
  if out.length < capacity then tcpOptionsAddDistinct capacity out block else out

/-- `tcp_options_collect_sacks`. -/
def tcpOptionsCollectSacks (st : OptionStream) (capacity : Nat) :
    List SackBlock × OptionStream :=
  let rx := st.ix.rx
  let normalized := normalizeSacks rx.recvAck rx.ofo []
  let recent := recentBlock rx normalized
  let reports := rx.dsackPending && capacity ≠ 0
  let out := if reports then dsackBlocks rx normalized capacity else []
  let history := st.sackHistory.take rx.sackHistoryCount
  let history := match recent with
    | some block => tcpOptionsHistoryPush history block
    | none => history
  let out := match recent with
    | some block => tcpOptionsAddDistinct capacity out block
    | none => out
  let out := history.foldl (addFromHistory normalized capacity) out
  let out := normalized.foldl (addRemaining capacity) out
  (out,
    { st.setRx { rx with
        dsackPending := rx.dsackPending && !reports
        sackRecentValid := false
        sackHistoryCount := history.length } with
      sackHistory := history })

/-- Whether `tcp_options_emit_sack` looks for blocks at all. -/
def reportsSacks (rx : Rx) (f : Fragment) : Bool :=
  f.ack && rx.sackPermitted && (rx.dsackPending || rx.ofo ≠ []) &&
    f.optLen * 4 + 2 ≤ tcpMaxOptions * 4

/-- How many blocks fit behind the options that are already there. -/
def sackCapacity (f : Fragment) : Nat :=
  min ((tcpMaxOptions * 4 - f.optLen * 4 - 2) / 8) tcpSackMaxBlocks

/-- The bytes of the SACK option for these blocks. -/
def sackOption (blocks : List SackBlock) : List UInt8 :=
  [5, UInt8.ofNat (2 + blocks.length * 8)] ++
    blocks.flatMap fun block => Bytes.be32 block.left ++ Bytes.be32 block.right

/-- `tcp_options_emit_sack`. -/
def tcpOptionsEmitSack (st : OptionStream) (f : Fragment) : Option (Fragment × OptionStream) :=
  if !reportsSacks st.ix.rx f then some (f, st)
  else
    let (blocks, st) := tcpOptionsCollectSacks st (sackCapacity f)
    if blocks = [] then some (f, st)
    else (tcpOptionsAppend f (sackOption blocks)).map fun f => (f, st)

end Report

section Apply

/-- `tcp_options_apply_syn`; `now` is the timestamp clock. -/
def tcpOptionsApplySyn (st : OptionStream) (f : Fragment)
    (includeWscale includeTimestamp includeSackPermitted : Bool) (tsecr now : BitVec 32) :
    Option (Fragment × OptionStream) := do
  let f ← tcpOptionsEmitMss f.clear (BitVec.ofNat 16 tcpDefaultMss)
  let f ← emitIf includeWscale (tcpOptionsEmitWscale · st.rcvWscale) f
  let f ← emitIf includeTimestamp (tcpOptionsEmitTimestamp · now tsecr) f
  let f ← emitIf includeSackPermitted tcpOptionsEmitSackPermitted f
  some (tcpOptionsFinish f,
    { st.setRx { st.ix.rx with
        sackPermitted := includeSackPermitted && st.sackPeerPermitted } with
      tsLastVal := if includeTimestamp then now else st.tsLastVal
      sackLocalOffered := includeSackPermitted })

/-- `tcp_options_apply_established`. -/
def tcpOptionsApplyEstablished (st : OptionStream) (f : Fragment) (now : BitVec 32) :
    Option (Fragment × OptionStream) := do
  let f ← emitIf st.timestampsOk (tcpOptionsEmitTimestamp · now st.tsRecent) f.clear
  let st := { st with tsLastVal := if st.timestampsOk then now else st.tsLastVal }
  let (f, st) ← tcpOptionsEmitSack st f
  some (tcpOptionsFinish f, st)

/-- The bytes `tcp_build_pkt` puts behind the fixed header; `none` for a bad option descriptor. -/
def tcpBuildPkt (f : Fragment) (payload : List UInt8) : Option (List UInt8) :=
  if f.optLen > tcpMaxOptions || f.dataOff ≠ BitVec.ofNat 8 ((5 + f.optLen) <<< 4) then none
  else some (f.options.take (f.optLen * 4) ++ payload)

end Apply

section Parsing

/-- `struct tcp_options_rx`. -/
structure OptionsRx where
  mss : BitVec 16 := BitVec.ofNat 16 tcpDefaultMss
  wscale : UInt8 := 0
  wscalePresent : Bool := false
  sackPermittedPresent : Bool := false
  sacks : List SackBlock := []
  timestampPresent : Bool := false
  tsval : BitVec 32 := 0
  tsecr : BitVec 32 := 0
  deriving DecidableEq, Repr

/-- What `tcp_options_parse` has decoded, and which options it has seen. -/
structure ParseState where
  rx : OptionsRx := {}
  mssPresent : Bool := false
  sackPermittedSeen : Bool := false
  sackSeen : Bool := false
  deriving DecidableEq, Repr

/-- The loop over the blocks of a SACK option; a block that is not in order is an error. -/
def parseSackBlocks : List UInt8 → Option (List SackBlock)
  | a :: b :: c :: d :: e :: f :: g :: h :: rest =>
    let block : SackBlock := ⟨Bytes.word32 a b c d, Bytes.word32 e f g h⟩
    if !Serial.gt block.right block.left then none
    else (parseSackBlocks rest).map (block :: ·)
  | _ => some []

/-- The cases of `tcp_options_parse` for one option; `data` is what follows kind and length. -/
def parseOption (syn ack : Bool) (kind : UInt8) (data : List UInt8) (st : ParseState) :
    Option ParseState :=
  if kind = 2 then
    match data with
    | [a, b] =>
      if st.mssPresent then none
      else
        let value := Bytes.word16 a b
        some { st with
          mssPresent := true
          rx := { st.rx with mss := if value.toNat ≥ tcpMinMss then value else st.rx.mss } }
    | _ => none
  else if kind = 3 then
    match data with
    | [wscale] =>
      if st.rx.wscalePresent || wscale.toNat > tcpWscaleMax then none
      else some { st with rx := { st.rx with wscale := wscale, wscalePresent := true } }
    | _ => none
  else if kind = 4 then
    if data ≠ [] || st.sackPermittedSeen then none
    else some { st with
      sackPermittedSeen := true
      rx := { st.rx with sackPermittedPresent := st.rx.sackPermittedPresent || syn } }
  else if kind = 5 then
    if data.length < 8 || data.length % 8 ≠ 0 || st.sackSeen then none
    else if data.length / 8 > tcpSackMaxBlocks then none
    else
      match parseSackBlocks data with
      | none => none
      | some blocks =>
        some { st with
          sackSeen := true
          rx := { st.rx with sacks := if !syn && ack then blocks else st.rx.sacks } }
  else if kind = 8 then
    match data with
    | [a, b, c, d, e, f, g, h] =>
      if st.rx.timestampPresent then none
      else some { st with rx := { st.rx with
        timestampPresent := true
        tsval := Bytes.word32 a b c d
        tsecr := Bytes.word32 e f g h } }
    | _ => none
  else some st

/-- Loop of `tcp_options_parse`; the first argument bounds the rounds. -/
def tcpOptionsParseLoop (syn ack : Bool) : Nat → List UInt8 → ParseState → Option ParseState
  | _, [], st => some st
  | 0, _ :: _, _ => none
  | left + 1, kind :: opt, st =>
    if kind = 0 then some st
    else if kind = 1 then tcpOptionsParseLoop syn ack left opt st
    else
      match opt with
      | [] => none
      | len :: rest =>
        if len.toNat < 2 || len.toNat > rest.length + 2 then none
        else
          match parseOption syn ack kind (rest.take (len.toNat - 2)) st with
          | none => none
          | some st => tcpOptionsParseLoop syn ack left (rest.drop (len.toNat - 2)) st

/-- `tcp_options_parse` on the data offset, the flags and the bytes behind the fixed header. -/
def tcpOptionsParse (dataOff : BitVec 8) (syn ack : Bool) (bytes : List UInt8) :
    Option OptionsRx :=
  let hdrLen := (dataOff >>> 4).toNat * 4
  if hdrLen < 20 then none
  else
    let area := bytes.take (hdrLen - 20)
    (tcpOptionsParseLoop syn ack area.length area {}).map ParseState.rx

/-- The segment size that `tcp_options_negotiate_syn` gives the sender. -/
def negotiatedMss (peer : OptionsRx) : Nat :=
  if peer.mss.toNat < tcpDefaultMss then peer.mss.toNat else tcpDefaultMss

/-- `tcp_options_negotiate_syn`, without the fields of the sender. -/
def tcpOptionsNegotiateSyn (st : OptionStream) (peer : OptionsRx) : OptionStream :=
  let permitted := st.sackPeerPermitted || peer.sackPermittedPresent
  { st.setRx { st.ix.rx with sackPermitted := st.sackLocalOffered && permitted } with
    sackPeerPermitted := permitted
    timestampsOk := peer.timestampPresent
    tsRecent := if peer.timestampPresent then peer.tsval else st.tsRecent }

end Parsing

end SnowTG.Tcp.Options
