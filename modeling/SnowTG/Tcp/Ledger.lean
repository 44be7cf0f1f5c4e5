import SnowTG.Tcp.TransmitMoves

/-!
# The sender's ledger

The wrapped sequence numbers of the sender stand for positions in the byte
stream the application handed over.  A ledger carries that stream, the unwrapped
positions and everything emitted beside the modelled stream; its invariant says
how the send buffer, the FIN and the emitted segments relate to it.  Every move
of the sender keeps it.
-/

namespace SnowTG.Tcp

open SnowTG.Lib List
open SnowTG.Lib.Serial (pos pos_add Near pos_inj)

/-- An emitted segment and the stream position its sequence number stands for. -/
structure Emission where
  off : Nat
  seg : WireSeg
  deriving DecidableEq, Repr

/-- The payload is what the stream holds at the position, and the position is that of the
sequence number. -/
def Emission.Carries (base : Seq) (accepted : List UInt8) (em : Emission) : Prop :=
  em.seg.seq = Serial.pos base em.off ∧ em.seg.payload <+: accepted.drop em.off

/-- The payload includes position `x`. -/
def Emission.Covers (em : Emission) (x : Nat) : Prop :=
  em.off ≤ x ∧ x < em.off + em.seg.payload.length

/-- Every data segment of the log carries bytes of the stream, and the positions below `bound` were
all on the wire. -/
structure LogOk (base : Seq) (accepted : List UInt8) (bound : Nat) (log : List Emission) :
    Prop where
  carries : ∀ em ∈ log, em.seg.payload ≠ [] → em.Carries base accepted
  covers : ∀ x < bound, ∃ em ∈ log, em.Covers x

section Log

variable {base : Seq} {accepted : List UInt8} {bound bound' : Nat} {log : List Emission}
  {em : Emission}

theorem Emission.Carries.append (h : em.Carries base accepted) (data : List UInt8) :
    em.Carries base (accepted ++ data) := by
  refine ⟨h.1, h.2.trans ?_⟩
  rw [drop_append]
  exact prefix_append _ _

theorem LogOk.quiet (h : LogOk base accepted bound log) (new : List Emission)
    (hnew : ∀ em ∈ new, em.seg.payload = []) (data : List UInt8) (hle : bound' ≤ bound) :
    LogOk base (accepted ++ data) bound' (log ++ new) where
  carries := by
    intro em hem hne
    rcases mem_append.mp hem with hem | hem
    · exact (h.carries em hem hne).append data
    · exact absurd (hnew em hem) hne
  covers := by
    intro x hx
    obtain ⟨em, hem, hcovers⟩ := h.covers x (hx.trans_le hle)
    exact ⟨em, mem_append_left new hem, hcovers⟩

theorem LogOk.emit (h : LogOk base accepted bound log) (hcarries : em.Carries base accepted)
    (hbound : ∀ x < bound', x < bound ∨ em.Covers x) :
    LogOk base accepted bound' (log ++ [em]) where
  carries := by
    intro em' hem hne
    rcases mem_append.mp hem with hem | hem
    · exact h.carries em' hem hne
    · rw [mem_singleton.mp hem]
      exact hcarries
  covers := by
    intro x hx
    rcases hbound x hx with hold | hnew
    · obtain ⟨em', hem, hcovers⟩ := h.covers x hold
      exact ⟨em', mem_append_left _ hem, hcovers⟩
    · exact ⟨em, mem_append_right _ (mem_singleton_self em), hnew⟩

end Log

/-- The send buffer of a connection: it holds the accepted bytes not acknowledged, and the FIN is
one position behind the last of them. -/
structure Books (base : Seq) (accepted : List UInt8) (una sent : Nat) (sb : Sndbuf) : Prop where
  una_le : una ≤ sent
  sent_le : sent ≤ accepted.length + 1
  ok : sb.Ok
  bytes : sb.bytes = accepted.drop una
  headSeq : sb.headSeq = Serial.pos base (min una accepted.length)
  fits : sb.len ≤ tcpSndbufSize
  unacked : sb.unacked = min sent accepted.length - min una accepted.length

variable {a n : Nat}

section Books

variable {base : Seq} {accepted : List UInt8} {una sent : Nat} {sb : Sndbuf}

section

variable (h : Books base accepted una sent sb)
include h

theorem Books.len : sb.len = accepted.length - una := by
  rw [h.ok.length, h.bytes, length_drop]

theorem Books.near : Near una sent := by
  have hlen := h.len
  have hfits : sb.len ≤ 65536 := h.fits
  have hsent := h.sent_le
  exact ⟨h.una_le, by omega⟩

/-- The end of the buffer is the end of the stream. -/
theorem Books.bufEnd : sb.headSeq + BitVec.ofNat 32 sb.len = pos base accepted.length := by
  have hlen := h.len
  have hend : min una accepted.length + sb.len = accepted.length := by omega
  rw [h.headSeq, pos_add, hend]

theorem Books.lt_bufEnd_iff :
    Serial.lt (pos base sent) (sb.headSeq + BitVec.ofNat 32 sb.len) = true ↔
      sent < accepted.length := by
  have hlen := h.len
  have hfits : sb.len ≤ 65536 := h.fits
  have hsent := h.sent_le
  have huna := h.una_le
  have hhere : Near (una - 1) sent := ⟨by omega, by omega⟩
  have hthere : Near (una - 1) accepted.length := ⟨by omega, by omega⟩
  rw [h.bufEnd]
  exact Near.lt_iff base hhere hthere

/-- Retire the bytes below `a`. -/
theorem Books.retire (hle : una ≤ a) (ha : a ≤ sent) :
    Books base accepted a sent (tcpSndbufRemove sb (min (a - una) sb.len)) := by
  obtain ⟨hok, hbytes, hhead, hunacked⟩ := tcpSndbufRemove_spec h.ok (min (a - una) sb.len)
  have hlen := h.len
  have hsent := h.sent_le
  rw [min_assoc, min_self] at hhead hunacked
  have hdrop : (tcpSndbufRemove sb (min (a - una) sb.len)).bytes = accepted.drop a := by
    rw [hbytes, h.bytes, drop_drop]
    rcases Nat.le_total (a - una) sb.len with hshort | hlong
    · rw [min_eq_left hshort, Nat.add_sub_cancel' hle]
    · rw [min_eq_right hlong, drop_eq_nil_of_le (by omega), drop_eq_nil_of_le (by omega)]
  refine ⟨ha, hsent, hok, hdrop, ?_, ?_, ?_⟩
  · have hpos : min una accepted.length + min (a - una) sb.len = min a accepted.length := by omega
    rw [hhead, h.headSeq, pos_add, hpos]
  · rw [hok.length, hdrop, length_drop]
    exact le_trans (by omega) h.fits
  · rw [hunacked, h.unacked]
    omega

/-- Give the next `n` bytes their sequence numbers. -/
theorem Books.charge (hn : sent + n ≤ accepted.length) :
    Books base accepted una (sent + n) { sb with unacked := sb.unacked + n } := by
  have huna := h.una_le
  have hunacked := h.unacked
  refine ⟨by omega, by omega, ⟨h.ok.length, h.ok.chunks⟩, h.bytes, h.headSeq, h.fits, ?_⟩
  change sb.unacked + n = _
  omega

end

/-- Give the FIN its sequence number. -/
theorem Books.assignFin (h : Books base accepted una accepted.length sb) :
    Books base accepted una (accepted.length + 1) sb := by
  have huna := h.una_le
  have hunacked := h.unacked
  exact ⟨by omega, le_rfl, h.ok, h.bytes, h.headSeq, h.fits, by rw [hunacked]; omega⟩

/-- A chunk found at a sequence number holds the bytes of the stream at its position. -/
theorem Books.peek (h : Books base accepted una sent sb) {q : Seq} {chunk : List UInt8}
    (hpeek : tcpSndbufPeek sb q = some chunk) :
    ∃ skip, una + skip < accepted.length ∧ q = pos base (una + skip) ∧
      chunk <+: accepted.drop (una + skip) := by
  have hlen := h.len
  have hfits : sb.len ≤ 65536 := h.fits
  obtain ⟨skip, hskip, hq, -, hpre⟩ := tcpSndbufPeek_spec (by omega) hpeek
  refine ⟨skip, by omega, ?_, ?_⟩
  · rw [hq, h.headSeq, min_eq_left (by omega)]
    exact pos_add base una skip
  · rw [h.bytes, drop_drop] at hpre
    exact hpre

end Books

variable {data : List UInt8} {una sent : Nat}

/-- Bytes appended to the stream while every sequence number given out belongs to a byte. -/
theorem Books.append {base : Seq} {accepted : List UInt8} {sb sb' : Sndbuf}
    (h : Books base accepted una sent sb) (hsent : sent ≤ accepted.length) (hok : sb'.Ok)
    (hbytes : sb'.bytes = sb.bytes ++ data) (hhead : sb'.headSeq = sb.headSeq)
    (hunacked : sb'.unacked = sb.unacked) (hfits : sb.len + data.length ≤ tcpSndbufSize) :
    Books base (accepted ++ data) una sent sb' := by
  have huna := h.una_le
  have hall : sb'.bytes = (accepted ++ data).drop una := by
    rw [hbytes, h.bytes, drop_append_of_le_length (huna.trans hsent)]
  refine ⟨huna, ?_, hok, hall, ?_, ?_, ?_⟩
  · rw [length_append]
    omega
  · rw [hhead, h.headSeq, length_append, min_eq_left (by omega), min_eq_left (by omega)]
  · rw [hok.length, hbytes, length_append, ← h.ok.length]
    exact hfits
  · rw [hunacked, h.unacked, length_append]
    omega

/-- What the phase says about the FIN. -/
def FinOk (len una sent : Nat) (deferred : Bool) : Phase → Prop
  | .opening => False
  | .sending => deferred = false ∧ sent ≤ len
  | .closing =>
    (deferred = true ∧ sent ≤ len) ∨ (deferred = false ∧ sent = len + 1 ∧ una ≤ len)
  | .acked =>
    (deferred = true ∧ sent ≤ len) ∨ (deferred = false ∧ sent = len + 1 ∧ una = len + 1)
  | .gone => una = sent

/-- The stream with its history: the bytes `tcp_send` accepted, the positions of `snd_una` and
`sent_seq`, and the segments emitted. -/
structure SenderState where
  stream : Stream
  accepted : List UInt8 := []
  una : Nat := 0
  sent : Nat := 0
  log : List Emission := []
  deriving DecidableEq, Repr

namespace SenderState

/-- The position of an emitted segment: its distance from `snd_una`, unwrapped. -/
def tag (st : SenderState) (seg : WireSeg) : Emission :=
  ⟨st.una + (seg.seq - st.stream.sndUna).toNat, seg⟩

/-- The history after the stream went on to `t`. -/
def follow (st : SenderState) (t : Stream) : SenderState where
  stream := t
  accepted := st.accepted
  una := st.una + (t.sndUna - st.stream.sndUna).toNat
  sent := st.sent + (t.sentSeq - st.stream.sentSeq).toNat
  log := st.log ++ (t.out.drop st.stream.out.length).map st.tag

/-- The invariant of the sender. -/
structure Inv (base : Seq) (st : SenderState) : Prop where
  sndUna : st.stream.sndUna = Serial.pos base st.una
  sentSeq : st.stream.sentSeq = Serial.pos base st.sent
  books : st.stream.status.phase ≠ .gone →
    Books base st.accepted st.una st.sent st.stream.sndbuf
  empty : st.stream.status.phase = .gone → st.stream.sndbuf = tcpSndbufInit st.stream.sentSeq
  fin : FinOk st.accepted.length st.una st.sent st.stream.finDeferred st.stream.status.phase
  log : LogOk base st.accepted (min st.sent st.accepted.length) st.log

variable {base : Seq} {st : SenderState} {t : Stream} {ack : Seq} {seg : WireSeg}

theorem Inv.near (h : st.Inv base) : Near st.una st.sent := by
  by_cases hgone : st.stream.status.phase = .gone
  · have hfin := h.fin
    rw [hgone] at hfin
    have heq : st.una = st.sent := hfin
    exact ⟨heq.le, by omega⟩
  · exact (h.books hgone).near

theorem follow_una_of_eq (h : t.sndUna = st.stream.sndUna) : (st.follow t).una = st.una := by
  simp [follow, h]

theorem follow_sent_of_eq (h : t.sentSeq = st.stream.sentSeq) : (st.follow t).sent = st.sent := by
  simp [follow, h]

/-- The unwrapped position of `snd_una` follows it wherever it goes within the flight. -/
theorem follow_una (hinv : st.stream.sndUna = pos base st.una) (hnear : Near st.una a)
    (hseq : t.sndUna = pos base a) : (st.follow t).una = a := by
  have hdist : (t.sndUna - st.stream.sndUna).toNat = a - st.una := by
    rw [hseq, hinv]
    exact Near.toNat_sub base hnear
      (Near.between le_rfl le_rfl hnear.1 hnear) hnear.1
  rw [follow, hdist, Nat.add_sub_cancel' hnear.1]

/-- The unwrapped position of `sent_seq` follows a short advance. -/
theorem follow_sent_add (hn : n < 2 ^ 32)
    (hseq : t.sentSeq = st.stream.sentSeq + BitVec.ofNat 32 n) :
    (st.follow t).sent = st.sent + n := by
  have hdist : (t.sentSeq - st.stream.sentSeq).toNat = n := by
    rw [hseq, add_sub_cancel_left, BitVec.toNat_ofNat, Nat.mod_eq_of_lt hn]
  rw [follow, hdist]

theorem follow_log {segs : List WireSeg} (h : t.out = st.stream.out ++ segs) :
    (st.follow t).log = st.log ++ segs.map st.tag := by
  rw [follow, h, drop_left]

/-- A step that emits no payload leaves the log in order. -/
theorem Inv.log_quiet (h : st.Inv base) (hquiet : st.stream.Quiet t) {bound : Nat}
    (hle : bound ≤ min st.sent st.accepted.length) :
    LogOk base st.accepted bound (st.follow t).log := by
  obtain ⟨segs, hout, hempty⟩ := hquiet
  have hlog := h.log.quiet (segs.map st.tag) (fun em hem => ?_) [] hle
  · rw [follow_log hout]
    rw [append_nil] at hlog
    exact hlog
  · obtain ⟨seg, hseg, rfl⟩ := mem_map.mp hem
    exact hempty seg hseg

/-- The invariant of the state that follows, from the new positions. -/
theorem Inv.of_follow (huna : (st.follow t).una = una) (hsent : (st.follow t).sent = sent)
    (hsndUna : t.sndUna = pos base una) (hsentSeq : t.sentSeq = pos base sent)
    (hbooks : t.status.phase ≠ .gone → Books base st.accepted una sent t.sndbuf)
    (hempty : t.status.phase = .gone → t.sndbuf = tcpSndbufInit t.sentSeq)
    (hfin : FinOk st.accepted.length una sent t.finDeferred t.status.phase)
    (hlog : LogOk base st.accepted (min sent st.accepted.length) (st.follow t).log) :
    (st.follow t).Inv base := by
  subst huna hsent
  exact ⟨hsndUna, hsentSeq, hbooks, hempty, hfin, hlog⟩

theorem Inv.steady (h : st.Inv base) (hsteady : st.stream.Steady t) : (st.follow t).Inv base := by
  refine .of_follow (follow_una_of_eq hsteady.sndUna) (follow_sent_of_eq hsteady.sentSeq)
    (hsteady.sndUna.trans h.sndUna) (hsteady.sentSeq.trans h.sentSeq) ?_ ?_ ?_
    (h.log_quiet hsteady.quiet le_rfl)
  · rw [hsteady.phase, hsteady.sndbuf]
    exact h.books
  · rw [hsteady.phase, hsteady.sndbuf, hsteady.sentSeq]
    exact h.empty
  · rw [hsteady.phase, hsteady.finDeferred]
    exact h.fin

/-- The end of the connection, behind a step that moved neither `snd_una` nor the stream. -/
theorem Inv.drained_after {m : Stream} (h : st.Inv base) (hm : (st.follow m).Inv base)
    (huna : m.sndUna = st.stream.sndUna) (hext : ∃ segs, m.out = st.stream.out ++ segs)
    (hdrained : m.Drained t) : (st.follow t).Inv base := by
  have hnear := hm.near
  have hsent : (st.follow t).sent = (st.follow m).sent := by rw [follow, follow, hdrained.sentSeq]
  have hgone : t.status.phase = .gone := by rw [hdrained.status]; rfl
  rw [follow_una_of_eq huna] at hnear
  obtain ⟨segs, hout⟩ := hext
  obtain ⟨segs', hout', hempty⟩ := hdrained.quiet
  have hlog : (st.follow t).log = (st.follow m).log ++ segs'.map st.tag := by
    rw [hout, append_assoc] at hout'
    rw [follow_log hout', follow_log hout, map_append, append_assoc]
  have hquiet := hm.log.quiet (segs'.map st.tag) (fun em hem => ?_) [] le_rfl
  · rw [append_nil, ← hlog] at hquiet
    refine .of_follow (follow_una h.sndUna hnear (hdrained.sndUna.trans hm.sentSeq)) hsent
      (hdrained.sndUna.trans hm.sentSeq) (hdrained.sentSeq.trans hm.sentSeq)
      (fun hne => absurd hgone hne) (fun _ => ?_) ?_ hquiet
    · rw [hdrained.sndbuf, hdrained.sentSeq]
    · rw [hgone]
      exact rfl
  · obtain ⟨seg, hseg, rfl⟩ := mem_map.mp hem
    exact hempty seg hseg

section

variable (h : st.Inv base)
include h

theorem Inv.drained (hdrained : st.stream.Drained t) : (st.follow t).Inv base :=
  h.drained_after (h.steady (.refl _)) rfl ⟨[], (append_nil _).symm⟩ hdrained

/-- An acknowledgement in range stands for a position of the flight, and the books move there. -/
theorem Inv.acked_pos (hacked : st.stream.Acked t ack) :
    ∃ a, Near st.una a ∧ a ≤ st.sent ∧ ack = pos base a ∧ (st.follow t).una = a ∧
      (a = st.una → t.sndbuf = st.stream.sndbuf) ∧
      (st.stream.status.phase ≠ .gone → Books base st.accepted a st.sent t.sndbuf) := by
  have hlow := hacked.low
  have hhigh := hacked.high
  rw [h.sndUna] at hlow
  rw [h.sentSeq] at hhigh
  obtain ⟨a, hle, ha, rfl⟩ := Serial.exists_pos_between base h.near hlow hhigh
  have hnear : Near st.una a := Near.between hle (le_refl a) ha h.near
  have hhere : Near st.una st.una := Near.between le_rfl le_rfl hle hnear
  have hsndbuf := hacked.sndbuf
  rw [ackRetire, h.sndUna] at hsndbuf
  have hsame : a = st.una → t.sndbuf = st.stream.sndbuf := by
    rintro rfl
    rw [if_pos rfl] at hsndbuf
    exact hsndbuf
  refine ⟨a, hnear, ha, rfl, follow_una h.sndUna hnear hacked.sndUna, hsame, fun hgone => ?_⟩
  by_cases heq : a = st.una
  · rw [hsame heq, heq]
    exact h.books hgone
  · have hne : ¬pos base a = pos base st.una := by
      rw [pos_inj base (by unfold Near Serial.Near at hnear; omega) (by omega)]
      exact heq
    rw [if_neg hne, Near.toNat_sub base hnear hhere hle] at hsndbuf
    rw [hsndbuf]
    exact (h.books hgone).retire hle ha

theorem Inv.acked (hacked : st.stream.Acked t ack)
    (hphase : t.status.phase = st.stream.status.phase)
    (hshort : st.stream.status.phase = .closing → ack ≠ st.stream.sentSeq) :
    (st.follow t).Inv base := by
  obtain ⟨a, hnear, ha, rfl, huna, hsame, hbooks⟩ := h.acked_pos hacked
  have hfin := h.fin
  refine .of_follow huna (follow_sent_of_eq hacked.sentSeq) hacked.sndUna
    (hacked.sentSeq.trans h.sentSeq) (by rw [hphase]; exact hbooks) (fun hgone => ?_) ?_
    (h.log_quiet hacked.quiet le_rfl)
  · rw [hphase] at hgone
    rw [hgone] at hfin
    have heq : st.una = st.sent := hfin
    rw [hsame (le_antisymm (heq ▸ ha) hnear.1), hacked.sentSeq]
    exact h.empty hgone
  · rw [hphase, hacked.finDeferred]
    have hle := hnear.1
    cases hcase : st.stream.status.phase with
    | opening | sending => rw [hcase] at hfin; exact hfin
    | closing =>
      rw [hcase] at hfin
      have hne : a ≠ st.sent := by
        rintro rfl
        exact hshort hcase h.sentSeq.symm
      rcases hfin with hfin | ⟨hdeferred, hlast, -⟩
      · exact .inl hfin
      · exact .inr ⟨hdeferred, hlast, by omega⟩
    | acked =>
      rw [hcase] at hfin
      rcases hfin with hfin | ⟨hdeferred, hlast, hall⟩
      · exact .inl hfin
      · exact .inr ⟨hdeferred, hlast, by omega⟩
    | gone =>
      rw [hcase] at hfin
      have heq : st.una = st.sent := hfin
      exact le_antisymm ha (heq ▸ hle)

/-- The acknowledgement of everything sent ends the closing phase. -/
theorem Inv.finAcked (hclosing : st.stream.status.phase = .closing)
    (hacked : st.stream.Acked t st.stream.sentSeq) (hphase : t.status.phase = .acked) :
    (st.follow t).Inv base := by
  obtain ⟨a, hnear, ha, hpos, huna, -, hbooks⟩ := h.acked_pos hacked
  have hsent : a = st.sent := by
    rw [h.sentSeq, pos_inj base (by unfold Near Serial.Near at hnear; have := h.near.2; omega)
      (by omega)] at hpos
    exact hpos.symm
  subst hsent
  have hfin := h.fin
  rw [hclosing] at hfin
  refine .of_follow huna (follow_sent_of_eq hacked.sentSeq) (hacked.sndUna.trans h.sentSeq)
    (hacked.sentSeq.trans h.sentSeq) (fun _ => hbooks (by rw [hclosing]; decide))
    (fun hgone => absurd (hphase.symm.trans hgone) (by decide)) ?_
    (h.log_quiet hacked.quiet le_rfl)
  rw [hphase, hacked.finDeferred]
  rcases hfin with hfin | ⟨hdeferred, hlast, -⟩
  · exact .inl hfin
  · exact .inr ⟨hdeferred, hlast, hlast⟩

/-- An emitted segment carries bytes of the stream, all of them accepted. -/
theorem Inv.emitted (hemitted : st.stream.Emitted t seg) :
    st.stream.status.phase ≠ .gone ∧ ∃ off, Near st.una off ∧ st.tag seg = ⟨off, seg⟩ ∧
      seg.seq = pos base off ∧ off + seg.payload.length ≤ st.accepted.length ∧
      Emission.Carries base st.accepted ⟨off, seg⟩ := by
  obtain ⟨chunk, n, hpeek, hpayload⟩ := hemitted.bytes
  have hgone : st.stream.status.phase ≠ .gone := by
    intro hgone
    rw [h.empty hgone] at hpeek
    have hsmall : (tcpSndbufInit st.stream.sentSeq).len < 2 ^ 31 := Nat.two_pow_pos 31
    obtain ⟨skip, hskip, -⟩ := tcpSndbufPeek_spec hsmall hpeek
    exact absurd hskip (Nat.not_lt_zero skip)
  have hbooks := h.books hgone
  have hlen := hbooks.len
  have hfits : st.stream.sndbuf.len ≤ 65536 := hbooks.fits
  obtain ⟨skip, hskip, hseq, hpre⟩ := hbooks.peek hpeek
  have hnear : Near st.una (st.una + skip) := ⟨Nat.le_add_right _ _, by omega⟩
  have hhere : Near st.una st.una := ⟨le_rfl, by omega⟩
  have hbytes : seg.payload <+: st.accepted.drop (st.una + skip) := by
    rw [hpayload]
    exact (List.take_prefix n chunk).trans hpre
  have hshort := hbytes.length_le
  rw [length_drop] at hshort
  refine ⟨hgone, st.una + skip, hnear, ?_, hseq, by omega, hseq, hbytes⟩
  rw [tag, hseq, h.sndUna, Near.toNat_sub base hnear hhere hnear.1, Nat.add_sub_cancel_left]

theorem Inv.resent (hresent : st.stream.Resent t seg) : (st.follow t).Inv base := by
  obtain ⟨hgone, off, -, htag, -, -, hcarries⟩ := h.emitted hresent.toEmitted
  refine .of_follow (follow_una_of_eq hresent.sndUna) (follow_sent_of_eq hresent.sentSeq)
    (hresent.sndUna.trans h.sndUna) (hresent.sentSeq.trans h.sentSeq) ?_ ?_ ?_ ?_
  · rw [hresent.phase, hresent.sndbuf]
    exact h.books
  · rw [hresent.phase]
    exact fun hnone => absurd hnone hgone
  · rw [hresent.phase, hresent.finDeferred]
    exact h.fin
  · rw [follow_log hresent.out, map_singleton, htag]
    exact h.log.emit hcarries fun x hx => .inl hx

/-- New data moves `sent_seq` by its length. -/
theorem Inv.sent_next (hsent : st.stream.Sent t seg) : (st.follow t).Inv base := by
  obtain ⟨hgone, off, hnear, htag, hseq, hend, hcarries⟩ := h.emitted hsent.toEmitted
  have hbooks := h.books hgone
  have hlen := hbooks.len
  have hfits : st.stream.sndbuf.len ≤ 65536 := hbooks.fits
  have huna := hbooks.una_le
  have hoff : off = st.sent := by
    have hpos := hsent.seq
    have hsmall := h.near.2
    have hle := hnear.1
    rw [hseq, h.sentSeq, pos_inj base (by omega) (by omega)] at hpos
    exact hpos
  subst hoff
  refine .of_follow (follow_una_of_eq hsent.sndUna) (follow_sent_add (by omega) hsent.sentSeq)
    (hsent.sndUna.trans h.sndUna) ?_ ?_ ?_ ?_ ?_
  · rw [hsent.sentSeq, h.sentSeq, pos_add]
  · rw [hsent.sndbuf]
    exact fun _ => hbooks.charge hend
  · rw [hsent.phase]
    exact fun hnone => absurd hnone hgone
  · rw [hsent.phase, hsent.finDeferred]
    have hfin := h.fin
    cases hcase : st.stream.status.phase with
    | opening => rw [hcase] at hfin; exact hfin
    | sending => rw [hcase] at hfin; exact ⟨hfin.1, hend⟩
    | closing | acked =>
      rw [hcase] at hfin
      rcases hfin with ⟨hdeferred, -⟩ | ⟨-, hlast, -⟩
      · exact .inl ⟨hdeferred, hend⟩
      · omega
    | gone => exact absurd hcase hgone
  · rw [follow_log hsent.out, map_singleton, htag]
    refine h.log.emit hcarries fun x hx => ?_
    by_cases hold : x < min st.sent st.accepted.length
    · exact .inl hold
    · refine .inr ⟨?_, ?_⟩
      · change st.sent ≤ x
        omega
      · change x < st.sent + seg.payload.length
        omega

theorem Inv.finWaits (hwaits : st.stream.FinWaits t) : (st.follow t).Inv base := by
  have hfin := h.fin
  rw [hwaits.sending] at hfin
  have hbooks := h.books (by rw [hwaits.sending]; decide)
  refine .of_follow (follow_una_of_eq hwaits.sndUna) (follow_sent_of_eq hwaits.sentSeq)
    (hwaits.sndUna.trans h.sndUna) (hwaits.sentSeq.trans h.sentSeq)
    (fun _ => by rw [hwaits.sndbuf]; exact hbooks)
    (fun hgone => absurd (hwaits.phase.symm.trans hgone) (by decide)) ?_
    (h.log_quiet hwaits.quiet le_rfl)
  rw [hwaits.phase, hwaits.finDeferred]
  exact .inl ⟨rfl, hfin.2⟩

/-- The FIN is only given a sequence number once every byte has one. -/
theorem Inv.fin_due (hassigned : st.stream.FinAssigned t) :
    st.sent = st.accepted.length ∧ t.finDeferred = false ∧ st.stream.status.phase ≠ .gone := by
  have hfin := h.fin
  have hdeferred := hassigned.finDeferred
  rcases hassigned.due with ⟨hphase, hnone⟩ | ⟨hphase, hwaits, hseq⟩
  · rw [hphase] at hfin
    have hbooks := h.books (by rw [hphase]; decide)
    have hall : ¬st.sent < st.accepted.length := by
      rw [← hbooks.lt_bufEnd_iff, ← h.sentSeq, hnone]
      exact Bool.false_ne_true
    refine ⟨le_antisymm hfin.2 (Nat.le_of_not_lt hall), ?_, by rw [hphase]; decide⟩
    rw [hdeferred, hfin.1, Bool.and_false]
  · rw [hphase] at hfin
    have hbooks := h.books (by rw [hphase]; decide)
    have hlen := hbooks.len
    have hfits : st.stream.sndbuf.len ≤ 65536 := hbooks.fits
    have huna := hbooks.una_le
    have hle := hbooks.sent_le
    rw [h.sentSeq, h.sndUna, pos_add, pos_inj base (by omega) (by omega)] at hseq
    refine ⟨?_, by rw [hdeferred, hphase]; rfl, by rw [hphase]; decide⟩
    rcases hfin with ⟨-, hshort⟩ | ⟨hnot, -⟩
    · omega
    · rw [hwaits] at hnot
      exact absurd hnot (by decide)

theorem Inv.finAssigned (hassigned : st.stream.FinAssigned t) : (st.follow t).Inv base := by
  obtain ⟨hlast, hdeferred, hgone⟩ := h.fin_due hassigned
  have hbooks := h.books hgone
  have huna := hbooks.una_le
  rw [hlast] at hbooks
  refine .of_follow (follow_una_of_eq hassigned.sndUna)
    (follow_sent_add (n := 1) (by decide) hassigned.sentSeq) (hassigned.sndUna.trans h.sndUna) ?_
    (fun _ => by rw [hassigned.sndbuf, hlast]; exact hbooks.assignFin)
    (fun hgone => absurd (hassigned.phase.symm.trans hgone) (by decide)) ?_
    (h.log_quiet hassigned.quiet (by omega))
  · rw [hassigned.sentSeq, h.sentSeq, Serial.pos_succ]
  · rw [hassigned.phase, hdeferred]
    exact .inr ⟨rfl, by omega, by omega⟩

/-- Every move of the sender keeps the invariant. -/
theorem Inv.move (hmove : st.stream.Move t) : (st.follow t).Inv base := by
  cases hmove with
  | steady hmove => exact h.steady hmove
  | acked ack hmove hphase hshort => exact h.acked hmove hphase hshort
  | finAcked hclosing hmove hphase => exact h.finAcked hclosing hmove hphase
  | drained hmove => exact h.drained hmove
  | resent seg hmove => exact h.resent hmove
  | sent seg hmove => exact h.sent_next hmove
  | sentDrained seg hmove hdrained =>
    exact h.drained_after (h.sent_next hmove) hmove.sndUna ⟨_, hmove.out⟩ hdrained
  | finWaits hmove => exact h.finWaits hmove
  | finAssigned hmove => exact h.finAssigned hmove
  | finAssignedDrained hmove hdrained =>
    obtain ⟨segs, hout, -⟩ := hmove.quiet
    exact h.drained_after (h.finAssigned hmove) hmove.sndUna ⟨segs, hout⟩ hdrained

/-- The application appended `data`. -/
theorem Inv.appended (happended : st.stream.Appended t data) :
    ({ st.follow t with accepted := st.accepted ++ data } : SenderState).Inv base := by
  have huna : (st.follow t).una = st.una := follow_una_of_eq happended.sndUna
  have hsent : (st.follow t).sent = st.sent := follow_sent_of_eq happended.sentSeq
  have hfin := h.fin
  rw [happended.sending] at hfin
  obtain ⟨hdeferred, hle⟩ := hfin
  have hsending : t.status.phase = .sending := happended.phase
  have hbooks := (h.books (by rw [happended.sending]; decide)).append hle happended.ok
    happended.bytes happended.headSeq happended.unacked happended.fits
  have hlog : LogOk base (st.accepted ++ data) (min st.sent (st.accepted ++ data).length)
      (st.log ++ []) := h.log.quiet [] (by simp) data (by omega)
  refine ⟨?_, ?_, fun _ => ?_, fun hgone => ?_, ?_, ?_⟩
  · exact (happended.sndUna.trans h.sndUna).trans (congrArg _ huna.symm)
  · exact (happended.sentSeq.trans h.sentSeq).trans (congrArg _ hsent.symm)
  · change Books base (st.accepted ++ data) (st.follow t).una (st.follow t).sent t.sndbuf
    rw [huna, hsent]
    exact hbooks
  · exact absurd (hsending.symm.trans hgone) (by decide)
  · change FinOk (st.accepted ++ data).length (st.follow t).una (st.follow t).sent t.finDeferred
      t.status.phase
    rw [hsending, hsent, happended.finDeferred, length_append]
    exact ⟨hdeferred, by omega⟩
  · change LogOk base (st.accepted ++ data) (min (st.follow t).sent (st.accepted ++ data).length)
      (st.follow t).log
    rw [hsent, @follow_log st t [] (by rw [happended.out, append_nil])]
    exact hlog

end

end SenderState

end SnowTG.Tcp
