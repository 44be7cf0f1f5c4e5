import SnowTG.Tcp.OptionCodec
import SnowTG.Tcp.OptionGrammar
import SnowTG.Tcp.ReportState

/-!
# Round trip of the option headers

A stream queues and drains segments, negotiates and builds headers in any order.
In every state it reaches, the options of a SYN and of an established segment
fit their area and come out of the parser as they went in.
-/

namespace SnowTG.Tcp.Options

open SnowTG.Lib List Option

/-- A finished fragment whose packet is parsed to `decoded`. -/
structure RoundTrip (f : Fragment) (payload : List UInt8) (decoded : OptionsRx) : Prop where
  size : f.optLen * 4 ≤ 40
  offset : f.dataOff.toNat / 16 = 5 + f.optLen
  parsed : ∃ bytes, tcpBuildPkt f payload = some bytes ∧
    tcpOptionsParse f.dataOff f.syn f.ack bytes = some decoded

variable {f : Fragment} {held : List UInt8} {ack : Bool}

theorem roundTrip_of_encodes {opts : List TcpOption} (h : f.Holds held) (hheld : Encodes held opts)
    (hopts : WellFormed opts) (payload : List UInt8) :
    RoundTrip (tcpOptionsFinish f) payload (announced f.syn f.ack opts) := by
  obtain ⟨hsize, hoffset, hbuild⟩ := finish_build h payload
  have hwords := h.words
  constructor
  · exact hsize
  · show _ = 5 + f.optLen
    omega
  · exact ⟨held ++ payload, hbuild, parse_of_encodes hoffset hheld hopts payload⟩

/-! ## What the encoders put in front of other options -/

/-- The padding behind the last option ends the list. -/
theorem encodes_padding : Encodes [0, 0] [] := .stop [0]

namespace Encodes

variable {rest data : List UInt8} {opts : List TcpOption} (h : Encodes rest opts)
include h

theorem cons (o : TcpOption) (hkind : o.kind ≠ 0 ∧ o.kind ≠ 1)
    (hfits : o.record.data.length + 2 < 256) :
    Encodes (o.kind :: o.record.len :: (o.record.data ++ rest)) (o :: opts) :=
  Tlv.Reads.record o.record hkind.1 hkind.2 hfits h

theorem mss (value : BitVec 16) : Encodes (mssOption value ++ rest) (.mss value :: opts) :=
  h.cons (.mss value) (by simp [TcpOption.kind, TcpOption.record])
    (by simp [TcpOption.record, Bytes.be16])

theorem wscale (shift : UInt8) : Encodes (wscaleOption shift ++ rest) (.wscale shift :: opts) :=
  .pad (h.cons (.wscale shift) (by simp [TcpOption.kind, TcpOption.record])
    (by simp [TcpOption.record]))

theorem timestamp (tsval tsecr : BitVec 32) :
    Encodes (timestampOption tsval tsecr ++ rest) (.timestamp tsval tsecr :: opts) :=
  .pad (.pad (h.cons (.timestamp tsval tsecr) (by simp [TcpOption.kind, TcpOption.record])
    (by simp [TcpOption.record])))

/-- An option that takes whole words, where it is present. -/
theorem present {o : TcpOption} (c : Bool) (hwords : data.length % 4 = 0)
    (hdata : Encodes (data ++ rest) (o :: opts)) :
    Encodes ((if c then aligned data else []) ++ rest) ((if c then [o] else []) ++ opts) := by
  cases c with
  | true =>
    rw [if_pos rfl, aligned_words hwords]
    exact hdata
  | false => exact h

end Encodes

section Syn

variable (wscale : UInt8) (includeWscale includeTimestamp includeSackPermitted : Bool)
  (tsecr now : BitVec 32)

/-- The options of a SYN. -/
def synOptions : List TcpOption :=
  .mss (BitVec.ofNat 16 tcpDefaultMss) :: ((if includeWscale then [.wscale wscale] else []) ++
    ((if includeTimestamp then [.timestamp now tsecr] else []) ++
    if includeSackPermitted then [.sackPermitted] else []))

/-- The bytes of the options of a SYN. -/
def synBytes : List UInt8 :=
  mssOption (BitVec.ofNat 16 tcpDefaultMss) ++
    ((if includeWscale then aligned (wscaleOption wscale) else []) ++
    ((if includeTimestamp then aligned (timestampOption now tsecr) else []) ++
    if includeSackPermitted then aligned sackPermittedOption else []))

theorem encodes_synBytes :
    Encodes (synBytes wscale includeWscale includeTimestamp includeSackPermitted tsecr now)
      (synOptions wscale includeWscale includeTimestamp includeSackPermitted tsecr now) := by
  have hlast : Encodes (if includeSackPermitted then aligned sackPermittedOption else [])
      (if includeSackPermitted then [.sackPermitted] else []) := by
    cases includeSackPermitted with
    | true => exact encodes_padding.cons .sackPermitted (by decide) (by decide)
    | false => exact .empty
  have hstamped := hlast.present includeTimestamp (by simp) (hlast.timestamp now tsecr)
  have hscaled := hstamped.present includeWscale (by simp) (hstamped.wscale wscale)
  exact hscaled.mss _

variable {wscale}

theorem wellFormed_synOptions (hwscale : wscale.toNat ≤ tcpWscaleMax) : WellFormed
    (synOptions wscale includeWscale includeTimestamp includeSackPermitted tsecr now) := by
  constructor
  · cases includeWscale <;> cases includeTimestamp <;> cases includeSackPermitted <;>
      simp [synOptions, TcpOption.Legal, hwscale]
  · cases includeWscale <;> cases includeTimestamp <;> cases includeSackPermitted <;>
      simp [synOptions, TcpOption.kind, TcpOption.record, TcpOption.knownKinds]

/-- What the peer learns from the options of a SYN. -/
theorem announced_synOptions : announced true ack
    (synOptions wscale includeWscale includeTimestamp includeSackPermitted tsecr now) =
      { mss := BitVec.ofNat 16 tcpDefaultMss
        wscale := if includeWscale then wscale else 0
        wscalePresent := includeWscale
        sackPermittedPresent := includeSackPermitted
        timestampPresent := includeTimestamp
        tsval := if includeTimestamp then now else 0
        tsecr := if includeTimestamp then tsecr else 0 } := by
  cases includeWscale <;> cases includeTimestamp <;> cases includeSackPermitted <;> rfl

/-- The header of a SYN comes back with what the stream offered. -/
theorem applySyn_roundTrip {st : OptionStream} (hsyn : f.syn = true)
    (hwscale : st.rcvWscale.toNat ≤ tcpWscaleMax) (payload : List UInt8) :
    ∃ f' st', tcpOptionsApplySyn st f includeWscale includeTimestamp includeSackPermitted tsecr
        now = some (f', st') ∧
      RoundTrip f' payload (announced true f'.ack (synOptions st.rcvWscale includeWscale
        includeTimestamp includeSackPermitted tsecr now)) := by
  obtain ⟨f₁, hmss, hholds₁, hsyn₁, -⟩ :=
    append_holds (clear_holds f) (mssOption (BitVec.ofNat 16 tcpDefaultMss)) (by simp)
  rw [nil_append, aligned_words (by simp)] at hholds₁
  obtain ⟨f₂, hws, hholds₂, hlen₂, hsyn₂, -⟩ :=
    append_if_holds includeWscale hholds₁ (wscaleOption st.rcvWscale) (by simp)
  rw [length_mssOption, length_wscaleOption] at hlen₂
  obtain ⟨f₃, hts, hholds₃, hlen₃, hsyn₃, -⟩ :=
    append_if_holds includeTimestamp hholds₂ (timestampOption now tsecr) (by
      rw [length_timestampOption]
      omega)
  rw [length_timestampOption] at hlen₃
  obtain ⟨f₄, hsack, hholds₄, -, hsyn₄, -⟩ :=
    append_if_holds includeSackPermitted hholds₃ sackPermittedOption (by
      rw [length_sackPermittedOption]
      omega)
  obtain ⟨st', hbuilt⟩ : ∃ st', tcpOptionsApplySyn st f includeWscale includeTimestamp
      includeSackPermitted tsecr now = some (tcpOptionsFinish f₄, st') := by
    simp only [tcpOptionsApplySyn, tcpOptionsEmitMss, hmss, emitIf, tcpOptionsEmitWscale, hws,
      tcpOptionsEmitTimestamp, hts, tcpOptionsEmitSackPermitted, hsack, bind_eq_bind, bind_some]
    exact ⟨_, rfl⟩
  have hflag : f₄.syn = true := by
    rw [hsyn₄, hsyn₃, hsyn₂, hsyn₁]
    exact hsyn
  have hencodes := encodes_synBytes st.rcvWscale includeWscale includeTimestamp
    includeSackPermitted tsecr now
  simp only [synBytes, ← append_assoc] at hencodes
  have htrip := roundTrip_of_encodes hholds₄ hencodes (wellFormed_synOptions _ _ _ _ _ hwscale)
    payload
  rw [hflag] at htrip
  exact ⟨_, st', hbuilt, htrip⟩

end Syn

section Established

/-- The blocks an established header reports: three fit beside a timestamp, else four. -/
def reportedBlocks (st : OptionStream) (f : Fragment) : List SackBlock :=
  if f.ack && st.ix.rx.sackPermitted && (st.ix.rx.dsackPending || st.ix.rx.ofo ≠ []) then
    (tcpOptionsCollectSacks st (if st.timestampsOk then 3 else 4)).1
  else []

/-- The options of an established header. -/
def establishedOptions (timestamps : Bool) (now tsecr : BitVec 32) (blocks : List SackBlock) :
    List TcpOption :=
  (if timestamps then [.timestamp now tsecr] else []) ++ if blocks = [] then [] else [.sack blocks]

theorem reportable_report {st : OptionStream} (h : Reportable st.ix) (capacity : Nat) :
    Report (fun block => Serial.gt block.right block.left = true) capacity
      (tcpOptionsCollectSacks st capacity).1 := by
  apply collectSacks_report
  · apply normalizeSacks_ordered
    intro seg hseg
    rw [← h.content] at hseg
    obtain ⟨node, hnode, rfl⟩ := mem_map.mp hseg
    exact (h.short node hnode).trans (by decide)
  · exact fun hpending => (h.duplicate hpending).ordered

theorem aligned_sackOption (blocks : List SackBlock) :
    (sackOption blocks).length = 2 + blocks.length * 8 ∧
      aligned (sackOption blocks) = sackOption blocks ++ [0, 0] := by
  have hlength : (sackOption blocks).length = 2 + blocks.length * 8 := by
    simp [sackOption, length_flatMap, Bytes.be32]
    omega
  refine ⟨hlength, ?_⟩
  have hpad : (4 - (sackOption blocks).length % 4) % 4 = 2 := by
    rw [hlength]
    omega
  rw [aligned, hpad]
  rfl

/-- The bytes of a report; none for no blocks. -/
def sackBytes (blocks : List SackBlock) : List UInt8 :=
  if blocks = [] then [] else aligned (sackOption blocks)

variable {blocks : List SackBlock}

/-- Encoding a report behind what the fragment holds. -/
theorem emitSack_holds {st : OptionStream} (hholds : f.Holds held)
    (hblocks : blocks =
      if reportsSacks st.ix.rx f then (tcpOptionsCollectSacks st (sackCapacity f)).1 else [])
    (hfew : held.length + (2 + blocks.length * 8) ≤ 40) :
    ∃ f' st', tcpOptionsEmitSack st f = some (f', st') ∧ f'.Holds (held ++ sackBytes blocks) ∧
      f'.syn = f.syn ∧ f'.ack = f.ack := by
  have hnone : blocks = [] → f.Holds (held ++ sackBytes blocks) := by
    rintro rfl
    rw [sackBytes, if_pos rfl, append_nil]
    exact hholds
  cases hreports : reportsSacks st.ix.rx f with
  | false =>
    rw [hreports, if_neg Bool.false_ne_true] at hblocks
    refine ⟨f, st, ?_, hnone hblocks, rfl, rfl⟩
    rw [tcpOptionsEmitSack, hreports]
    rfl
  | true =>
    rw [hreports, if_pos rfl] at hblocks
    cases hcollected : tcpOptionsCollectSacks st (sackCapacity f) with
    | mk collected after =>
      rw [hcollected] at hblocks
      obtain rfl : blocks = collected := hblocks
      by_cases hempty : blocks = []
      · refine ⟨f, after, ?_, hnone hempty, rfl, rfl⟩
        simp [tcpOptionsEmitSack, hreports, hcollected, hempty]
      · obtain ⟨f', hsack, hholds', hflags⟩ :=
          append_holds hholds (sackOption blocks)
            (by rw [(aligned_sackOption blocks).1]; exact hfew)
        refine ⟨f', after, ?_, ?_, hflags⟩
        · simp [tcpOptionsEmitSack, hreports, hcollected, hempty, hsack]
        · rw [sackBytes, if_neg hempty]
          exact hholds'

theorem encodes_sackBytes (hcount : blocks.length ≤ 4) :
    Encodes (sackBytes blocks) (if blocks = [] then [] else [.sack blocks]) := by
  rw [sackBytes]
  split_ifs with hempty
  · exact .empty
  · have hlength : (blocks.flatMap fun block =>
        Bytes.be32 block.left ++ Bytes.be32 block.right).length = blocks.length * 8 := by
      simp [length_flatMap, Bytes.be32]
    rw [(aligned_sackOption blocks).2, sackOption, Nat.add_comm 2, ← hlength]
    apply encodes_padding.cons (.sack blocks) (by simp [TcpOption.kind, TcpOption.record])
    rw [TcpOption.record, hlength]
    omega

theorem wellFormed_establishedOptions (timestamps : Bool) (now tsecr : BitVec 32)
    (hcount : blocks.length ≤ 4)
    (horder : ∀ block ∈ blocks, Serial.gt block.right block.left = true) :
    WellFormed (establishedOptions timestamps now tsecr blocks) := by
  rw [establishedOptions]
  split_ifs with hstamped hempty hempty
  all_goals constructor
  all_goals simp [TcpOption.kind, TcpOption.record, TcpOption.knownKinds, TcpOption.Legal]
  all_goals exact ⟨length_pos_iff.mpr hempty, hcount, horder⟩

/-- What the peer learns from the options of an established header. -/
theorem announced_establishedOptions (timestamps : Bool) (now tsecr : BitVec 32)
    (hack : blocks ≠ [] → ack = true) :
    announced false ack (establishedOptions timestamps now tsecr blocks) =
      { timestampPresent := timestamps
        tsval := if timestamps then now else 0
        tsecr := if timestamps then tsecr else 0
        sacks := blocks } := by
  rw [establishedOptions]
  by_cases hempty : blocks = []
  · subst hempty
    cases timestamps <;> cases ack <;> rfl
  · rw [if_neg hempty, hack hempty]
    cases timestamps <;> rfl

/-- The header of an established segment comes back with its timestamp and its blocks. -/
theorem applyEstablished_roundTrip {st : OptionStream} (hsyn : f.syn = false) (h : Reportable st.ix)
    (now : BitVec 32) (payload : List UInt8) :
    ∃ f' st', tcpOptionsApplyEstablished st f now = some (f', st') ∧
      RoundTrip f' payload
        { timestampPresent := st.timestampsOk
          tsval := if st.timestampsOk then now else 0
          tsecr := if st.timestampsOk then st.tsRecent else 0
          sacks := reportedBlocks st f } := by
  obtain ⟨f₁, hts, hholds₁, -, hsyn₁, hack₁⟩ :=
    append_if_holds st.timestampsOk (clear_holds f) (timestampOption now st.tsRecent) (by simp)
  rw [nil_append] at hholds₁
  replace hack₁ : f₁.ack = f.ack := hack₁
  have hlength : (if st.timestampsOk then aligned (timestampOption now st.tsRecent)
      else []).length = if st.timestampsOk then 12 else 0 := by
    cases st.timestampsOk with
    | true =>
      rw [if_pos rfl, length_aligned, length_timestampOption]
      rfl
    | false => rfl
  have hoptLen : f₁.optLen * 4 = if st.timestampsOk then 12 else 0 :=
    hholds₁.words.symm.trans hlength
  have hcapacity : sackCapacity f₁ = if st.timestampsOk then 3 else 4 := by
    rw [sackCapacity, hoptLen]
    cases st.timestampsOk <;> rfl
  obtain ⟨stamped, hstamped⟩ : ∃ stamped : OptionStream, stamped =
    { st with tsLastVal := if st.timestampsOk then now else st.tsLastVal } := ⟨_, rfl⟩
  have hreportable : Reportable stamped.ix := by
    rw [hstamped]
    exact h
  have hblocks : reportedBlocks st f = if reportsSacks stamped.ix.rx f₁ then
      (tcpOptionsCollectSacks stamped (sackCapacity f₁)).1 else [] := by
    have hroom : f₁.optLen * 4 + 2 ≤ tcpMaxOptions * 4 := by
      rw [hoptLen, tcpMaxOptions]
      split_ifs <;> omega
    rw [reportedBlocks, reportsSacks, hack₁, decide_eq_true hroom, Bool.and_true, hcapacity,
      hstamped]
    rfl
  have hreport : Report (fun block => Serial.gt block.right block.left = true)
      (sackCapacity f₁) (reportedBlocks st f) := by
    rw [hblocks]
    split_ifs
    · exact reportable_report hreportable _
    · exact report_nil
  have hfew := hreport.few
  rw [hcapacity] at hfew
  obtain ⟨f₂, after, hsent, hholds₂, hsyn₂, hack₂⟩ := emitSack_holds hholds₁ hblocks (by
    rw [hlength]
    split_ifs at hfew ⊢ <;> omega)
  have hack : reportedBlocks st f ≠ [] → f₁.ack = true := by
    intro hsome
    rw [reportedBlocks] at hsome
    by_contra hnoack
    rw [hack₁] at hnoack
    rw [Bool.eq_false_of_not_eq_true hnoack] at hsome
    exact hsome rfl
  have hcount : (reportedBlocks st f).length ≤ 4 := by
    split_ifs at hfew <;> omega
  have hsacks := encodes_sackBytes hcount
  have hencodes : Encodes _ (establishedOptions st.timestampsOk now st.tsRecent _) :=
    hsacks.present st.timestampsOk (by simp) (hsacks.timestamp now st.tsRecent)
  have htrip := roundTrip_of_encodes hholds₂ hencodes
    (wellFormed_establishedOptions st.timestampsOk now st.tsRecent hcount hreport.all) payload
  rw [hsyn₂.trans (hsyn₁.trans hsyn), hack₂, announced_establishedOptions _ _ _ hack] at htrip
  refine ⟨tcpOptionsFinish f₂, after, ?_, htrip⟩
  simp only [tcpOptionsApplyEstablished, emitIf, tcpOptionsEmitTimestamp, hts, bind_eq_bind,
    bind_some, ← hstamped, hsent]

end Established

section Runs

/-- What happens to the option state of a stream: calls on its queue, each under the gauges of its
owner and with the allocator's answers, negotiation, a new `ts_recent`, and headers. -/
inductive OptionEvent where
  | call (call : QueueCall) (owner : OfoOwner) (tape : Tape)
  | negotiate (peer : OptionsRx)
  | timestamp (tsval : BitVec 32)
  | syn (f : Fragment) (includeWscale includeTimestamp includeSackPermitted : Bool)
      (tsecr now : BitVec 32)
  | established (f : Fragment) (now : BitVec 32)
  deriving DecidableEq, Repr

def optionStep (st : OptionStream) : OptionEvent → OptionStream
  | .call call owner tape => { st with ix := call.apply (st.ix.under owner tape) }
  | .negotiate peer => tcpOptionsNegotiateSyn st peer
  | .timestamp tsval => { st with tsRecent := tsval }
  | .syn f includeWscale includeTimestamp includeSackPermitted tsecr now =>
    ((tcpOptionsApplySyn st f includeWscale includeTimestamp includeSackPermitted tsecr now).map
      Prod.snd).getD st
  | .established f now => ((tcpOptionsApplyEstablished st f now).map Prod.snd).getD st

/-- A stream that has received nothing; payload arrives in datagrams of less than 64 KiB. -/
def optionSystem : System OptionStream OptionEvent where
  init st := st.ix.queue = [] ∧ st.ix.rx.ofo = [] ∧ st.ix.rx.dsackPending = false ∧
    st.rcvWscale = UInt8.ofNat (tcpChooseRcvWscale st.ix.rx.rcvbufSize)
  enabled _
    | .call call _ _ => call.payload.length < 2 ^ 16
    | _ => True
  step := optionStep

instance (st : OptionStream) : (e : OptionEvent) → Decidable (optionSystem.enabled st e)
  | .call call _ _ => inferInstanceAs (Decidable (call.payload.length < 2 ^ 16))
  | .negotiate _ | .timestamp _ | .syn .. | .established .. => inferInstanceAs (Decidable True)

theorem chooseFrom_le (rcvbufSize left scale : Nat) :
    tcpChooseRcvWscaleFrom rcvbufSize left scale ≤ scale + left := by
  induction left generalizing scale with
  | zero => exact le_rfl
  | succ left ih =>
    rw [tcpChooseRcvWscaleFrom]
    split_ifs
    · have := ih (scale + 1)
      omega
    · omega

theorem wscale_le (rcvbufSize : Nat) :
    (UInt8.ofNat (tcpChooseRcvWscale rcvbufSize)).toNat ≤ tcpWscaleMax := by
  have hle := chooseFrom_le rcvbufSize tcpWscaleMax 0
  rw [UInt8.toNat_ofNat', tcpChooseRcvWscale]
  rw [tcpWscaleMax] at hle ⊢
  omega

/-- What the encoders rely on. -/
structure OptionStream.Sound (st : OptionStream) : Prop where
  report : Reportable st.ix
  wscale : st.rcvWscale.toNat ≤ tcpWscaleMax

variable {st : OptionStream}

/-- What building or reading a header changes of the receive side: notes for the next report may
go, and SACK is agreed on or not. -/
def HeaderMoves (rx rx' : Rx) : Prop :=
  ∃ permitted pending valid count,
    rx' = { rx with
      sackPermitted := permitted
      dsackPending := pending
      sackRecentValid := valid
      sackHistoryCount := count } ∧
    (pending = true → rx.dsackPending = true) ∧ (valid = true → rx.sackRecentValid = true)

theorem HeaderMoves.refl (rx : Rx) : HeaderMoves rx rx := ⟨_, _, _, _, rfl, id, id⟩

theorem HeaderMoves.sameReport {rx rx' : Rx} (h : HeaderMoves rx rx') : SameReport rx rx' := by
  obtain ⟨permitted, pending, valid, count, rfl, hpending, -⟩ := h
  exact ⟨rfl, hpending, rfl⟩

/-- The state behind a SACK option: only a report changes it. -/
theorem emitSack_state {sent : Fragment × OptionStream}
    (hsent : tcpOptionsEmitSack st f = some sent) :
    sent.2 = if reportsSacks st.ix.rx f then (tcpOptionsCollectSacks st (sackCapacity f)).2
      else st := by
  rw [tcpOptionsEmitSack] at hsent
  generalize tcpOptionsCollectSacks st (sackCapacity f) = collected at hsent ⊢
  cases hreports : reportsSacks st.ix.rx f with
  | false =>
    rw [if_pos (by simp [hreports])] at hsent
    obtain rfl := Option.some.inj hsent
    rfl
  | true =>
    rw [if_neg (by simp [hreports])] at hsent
    dsimp only at hsent
    split_ifs at hsent
    · obtain rfl := Option.some.inj hsent
      rfl
    · obtain ⟨f', -, rfl⟩ := map_eq_some_iff.mp hsent
      rfl

theorem emitSack_header {sent : Fragment × OptionStream}
    (hsent : tcpOptionsEmitSack st f = some sent) :
    ∃ rx, HeaderMoves st.ix.rx rx ∧ sent.2.ix = { st.ix with rx := rx } ∧
      sent.2.rcvWscale = st.rcvWscale := by
  rw [emitSack_state hsent]
  split_ifs
  · refine ⟨_, ⟨_, _, _, _, rfl, fun hpending => ?_, fun hvalid => ?_⟩, rfl, rfl⟩
    · exact (Bool.and_eq_true _ _ ▸ hpending : _ ∧ _).1
    · exact absurd hvalid Bool.false_ne_true
  · exact ⟨st.ix.rx, .refl _, rfl, rfl⟩

/-- An event that is no call on the queue moves the receive side as headers do. -/
theorem optionStep_header (st : OptionStream) (e : OptionEvent)
    (hheader : ∀ call owner tape, e ≠ .call call owner tape) :
    ∃ rx, HeaderMoves st.ix.rx rx ∧ (optionStep st e).ix = { st.ix with rx := rx } ∧
      (optionStep st e).rcvWscale = st.rcvWscale := by
  cases e with
  | call call owner tape => exact absurd rfl (hheader call owner tape)
  | negotiate peer => exact ⟨_, ⟨_, _, _, _, rfl, id, id⟩, rfl, rfl⟩
  | timestamp tsval => exact ⟨st.ix.rx, .refl _, rfl, rfl⟩
  | syn f includeWscale includeTimestamp includeSackPermitted tsecr now =>
    rw [optionStep]
    cases hbuilt : tcpOptionsApplySyn st f includeWscale includeTimestamp includeSackPermitted
      tsecr now with
    | none => exact ⟨st.ix.rx, .refl _, rfl, rfl⟩
    | some built =>
      simp only [tcpOptionsApplySyn, bind_eq_bind, bind_eq_some_iff] at hbuilt
      obtain ⟨f₁, -, f₂, -, f₃, -, f₄, -, heq⟩ := hbuilt
      obtain rfl := Option.some.inj heq
      exact ⟨_, ⟨_, _, _, _, rfl, id, id⟩, rfl, rfl⟩
  | established f now =>
    rw [optionStep]
    cases hbuilt : tcpOptionsApplyEstablished st f now with
    | none => exact ⟨st.ix.rx, .refl _, rfl, rfl⟩
    | some built =>
      simp only [tcpOptionsApplyEstablished, bind_eq_bind, bind_eq_some_iff] at hbuilt
      obtain ⟨f₁, -, sent, hsent, heq⟩ := hbuilt
      obtain rfl := Option.some.inj heq
      obtain ⟨rx, hmoves, hix, hwscale⟩ := emitSack_header hsent
      exact ⟨rx, hmoves, hix, hwscale⟩

theorem optionStep_sound (h : st.Sound) (e : OptionEvent) (henabled : optionSystem.enabled st e) :
    (optionStep st e).Sound := by
  by_cases hheader : ∀ call owner tape, e ≠ .call call owner tape
  · obtain ⟨rx, hmoves, hix, hwscale⟩ := optionStep_header st e hheader
    refine ⟨?_, hwscale ▸ h.wscale⟩
    rw [hix]
    exact h.report.congr hmoves.sameReport
  · push Not at hheader
    obtain ⟨call, owner, tape, rfl⟩ := hheader
    have hunder : Reportable (st.ix.under owner tape) := h.report.congr ⟨rfl, id, rfl⟩
    exact ⟨hunder.apply call henabled, h.wscale⟩

theorem sound_of_reach (h : optionSystem.Reach (fun _ _ => True) st) : st.Sound := by
  apply h.invariant
  · rintro st ⟨hqueue, hofo, hpending, hwscale⟩
    refine ⟨⟨?_, ?_, ?_⟩, ?_⟩
    · rw [hqueue, hofo]
      rfl
    · intro node hnode
      rw [hqueue] at hnode
      exact absurd hnode not_mem_nil
    · intro hwaiting
      rw [hpending] at hwaiting
      exact absurd hwaiting Bool.false_ne_true
    · rw [hwscale]
      exact wscale_le _
  · exact fun st e hsound henabled _ => optionStep_sound hsound e henabled

/-- In every state a stream reaches, the options of a SYN and of an established segment fit their
area under a data offset that counts them, and are parsed back as they were encoded. -/
theorem options_round_trip (h : optionSystem.Reach (fun _ _ => True) st) (f : Fragment)
    (now : BitVec 32) (payload : List UInt8) :
    (f.syn = true → ∀ (includeWscale includeTimestamp includeSackPermitted : Bool)
        (tsecr : BitVec 32),
      ∃ f' st', tcpOptionsApplySyn st f includeWscale includeTimestamp includeSackPermitted tsecr
          now = some (f', st') ∧
        RoundTrip f' payload
          { mss := BitVec.ofNat 16 tcpDefaultMss
            wscale := if includeWscale then st.rcvWscale else 0
            wscalePresent := includeWscale
            sackPermittedPresent := includeSackPermitted
            timestampPresent := includeTimestamp
            tsval := if includeTimestamp then now else 0
            tsecr := if includeTimestamp then tsecr else 0 }) ∧
    (f.syn = false →
      ∃ f' st', tcpOptionsApplyEstablished st f now = some (f', st') ∧
        RoundTrip f' payload
          { timestampPresent := st.timestampsOk
            tsval := if st.timestampsOk then now else 0
            tsecr := if st.timestampsOk then st.tsRecent else 0
            sacks := reportedBlocks st f }) := by
  have hsound := sound_of_reach h
  constructor
  · intro hsyn includeWscale includeTimestamp includeSackPermitted tsecr
    obtain ⟨f', st', hbuilt, htrip⟩ := applySyn_roundTrip includeWscale includeTimestamp
      includeSackPermitted tsecr now hsyn hsound.wscale payload
    rw [announced_synOptions] at htrip
    exact ⟨f', st', hbuilt, htrip⟩
  · intro hsyn
    exact applyEstablished_roundTrip hsyn hsound.report now payload

/-- A stream that expects sequence number zero, and agreed on timestamps and SACK. -/
def negotiatedStream : OptionStream :=
  { ix := { rx := { recvAck := 0, sackPermitted := true } }, rcvWscale := 3, timestampsOk := true }

/-- Two segments beyond a hole and a duplicate of a part of the second. -/
def twoHoles : List OptionEvent :=
  [.call (.segment .established 10 [1, 2, 3] false) {} [999, 999, 1, 1],
    .call (.segment .established 20 [4, 5, 6] false) {} [999, 999, 1, 1],
    .call (.segment .established 21 [5] false) {} [999, 999, 1, 1]]

/-- An ACK that reports two holes. -/
theorem options_round_trip_two_holes :
    reportedBlocks (optionSystem.run negotiatedStream twoHoles) ⟨false, true, 0x50, 0, []⟩ =
        [⟨21, 22⟩, ⟨20, 23⟩, ⟨10, 13⟩] ∧
      ∃ f' st', tcpOptionsApplyEstablished (optionSystem.run negotiatedStream twoHoles)
          ⟨false, true, 0x50, 0, []⟩ 7 = some (f', st') ∧
        RoundTrip f' [9]
          { timestampPresent := true
            tsval := 7
            sacks := reportedBlocks (optionSystem.run negotiatedStream twoHoles)
              ⟨false, true, 0x50, 0, []⟩ } := by
  have hinit : optionSystem.init negotiatedStream := ⟨rfl, rfl, rfl, by decide⟩
  have hreach : optionSystem.Reach (fun _ _ => True)
      (optionSystem.run negotiatedStream twoHoles) :=
    System.Reach.run (.init hinit) (by decide)
  exact ⟨by decide, (options_round_trip hreach _ 7 [9]).2 rfl⟩

end Runs

end SnowTG.Tcp.Options
