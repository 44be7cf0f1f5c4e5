import SnowTG.Tcp.Receive

/-!
# Reassembly against one peer stream

The peer sends one byte sequence, optionally closed by a FIN.  A node of the
out-of-order queue is well placed when its bytes are the stream bytes at its
offset; a queue is a chain of well placed nodes in stream order.  Insertion,
draining and purging keep such chains, whatever the limits and the allocator
answer.
-/

namespace SnowTG.Tcp

open SnowTG.Lib List
open SnowTG.Lib.Serial (pos pos_add Near)

/-- What the peer sends: first payload sequence number, bytes, and whether a FIN follows. -/
structure PeerStream where
  irs : Seq
  data : List UInt8
  fin : Bool
  deriving DecidableEq, Repr

variable {S : PeerStream} {rx rx' : Rx} {lo hi p o m : Nat} {l pre rest : List OfoSeg}
  {base k : Nat} {rx'' : Rx} {data : List UInt8} {hasFin : Bool}

/-- A cut of the stream at offset `p`: the payload (and FIN) of an agreeing segment. -/
structure Cut (S : PeerStream) (p : Nat) (data : List UInt8) (hasFin : Bool) : Prop where
  bytes : data <+: S.data.drop p
  inside : p + data.length ≤ S.data.length
  fin_end : hasFin = true → S.fin = true ∧ p + data.length = S.data.length

/-- The node holds the stream bytes from offset `o` on. -/
structure OfoSeg.At (S : PeerStream) (o : Nat) (seg : OfoSeg) : Prop
    extends Cut S o seg.data seg.hasFin where
  seq_eq : seg.seq = Serial.pos S.irs o

/-- Well placed nodes in stream order between the offsets `lo` and `hi`. -/
def Queue (S : PeerStream) : Nat → List OfoSeg → Nat → Prop
  | lo, [], hi => lo ≤ hi
  | lo, seg :: rest, hi =>
    ∃ o, lo ≤ o ∧ seg.At S o ∧ Queue S (o + seg.data.length) rest hi

theorem Queue.le (h : Queue S lo l hi) : lo ≤ hi := by
  induction l generalizing lo with
  | nil => exact h
  | cons seg rest ih =>
    obtain ⟨o, hlo, -, hrest⟩ := h
    have := ih hrest
    omega

theorem Queue.mono {lo' hi' : Nat} (h : Queue S lo l hi) (hlo : lo' ≤ lo) (hhi : hi ≤ hi') :
    Queue S lo' l hi' := by
  induction l generalizing lo lo' with
  | nil => exact hlo.trans (Nat.le_trans h hhi)
  | cons seg rest ih =>
    obtain ⟨o, ho, hat, hrest⟩ := h
    exact ⟨o, hlo.trans ho, hat, ih hrest le_rfl⟩

theorem queue_append {r : List OfoSeg} :
    Queue S lo (l ++ r) hi ↔ ∃ m, Queue S lo l m ∧ Queue S m r hi := by
  induction l generalizing lo with
  | nil =>
    constructor
    · intro h
      exact ⟨lo, le_rfl, h⟩
    · rintro ⟨m, hm, h⟩
      exact h.mono hm le_rfl
  | cons seg rest ih =>
    simp only [cons_append, Queue, ih]
    constructor
    · rintro ⟨o, hlo, hat, m, hl, hr⟩
      exact ⟨m, ⟨o, hlo, hat, hl⟩, hr⟩
    · rintro ⟨m, ⟨o, hlo, hat, hl⟩, hr⟩
      exact ⟨o, hlo, hat, m, hl, hr⟩

theorem OfoSeg.At.endSeq_eq {seg : OfoSeg} (h : seg.At S o) :
    seg.endSeq = pos S.irs (o + seg.data.length) := by
  rw [OfoSeg.endSeq, h.seq_eq, pos_add]

/-- Nodes that start before `p` and nodes from `p` on. -/
theorem Queue.split_at (h : Queue S lo l hi) (hbase : base ≤ lo) (hp : Near base p) (hphi : p ≤ hi)
    (hhi : Near base hi) :
    ∃ m, Queue S lo (l.takeWhile fun cur => Serial.lt cur.seq (pos S.irs p)) m ∧
      Queue S m (l.dropWhile fun cur => Serial.lt cur.seq (pos S.irs p)) hi ∧
      Queue S p (l.dropWhile fun cur => Serial.lt cur.seq (pos S.irs p)) hi := by
  induction l generalizing lo with
  | nil => exact ⟨lo, le_rfl, h, hphi⟩
  | cons seg rest ih =>
    obtain ⟨o, hlo, hat, hrest⟩ := h
    have hend := hrest.le
    have hlt := Near.lt_iff S.irs (Near.between hbase hlo (by omega) hhi) hp
    rw [← hat.seq_eq] at hlt
    by_cases hop : o < p
    · obtain ⟨m, htake, hdrop, hpdrop⟩ := ih hrest (by omega)
      simp only [takeWhile_cons, dropWhile_cons, hlt.mpr hop, if_true]
      exact ⟨m, ⟨o, hlo, hat, htake⟩, hdrop, hpdrop⟩
    · simp only [takeWhile_cons, dropWhile_cons, mt hlt.mp hop]
      exact ⟨lo, le_rfl, ⟨o, hlo, hat, hrest⟩, ⟨o, by omega, hat, hrest⟩⟩

/-- The insertion cursor splits the queue; everything before it ends at or below `p`, and at the
end of the stream everything from it on starts at or above `p`. -/
theorem Queue.cursor (h : Queue S lo l hi) (hbase : base ≤ lo) (hlop : lo ≤ p) (hp : Near base p)
    (hphi : p ≤ hi) (hhi : Near base hi) :
    (tcpOfoCursor l (pos S.irs p)).1 ++ (tcpOfoCursor l (pos S.irs p)).2 = l ∧
      Queue S lo (tcpOfoCursor l (pos S.irs p)).1 p ∧
      (p = S.data.length → Queue S p (tcpOfoCursor l (pos S.irs p)).2 hi) := by
  obtain ⟨m, htake, hdrop, hpdrop⟩ := h.split_at hbase hp hphi hhi
  have hwhole := takeWhile_append_dropWhile (l := l)
    (p := fun cur => Serial.lt cur.seq (pos S.irs p))
  unfold tcpOfoCursor
  generalize hpre : (l.takeWhile fun cur => Serial.lt cur.seq (pos S.irs p)) = pre at *
  generalize (l.dropWhile fun cur => Serial.lt cur.seq (pos S.irs p)) = rest at *
  cases hlast : pre.getLast? with
  | none =>
    obtain rfl := List.getLast?_eq_none_iff.mp hlast
    exact ⟨hwhole, hlop, fun _ => hpdrop⟩
  | some prev =>
    obtain ⟨init, rfl⟩ := List.getLast?_eq_some_iff.mp hlast
    obtain ⟨m', hinit, o, ho, hat, hm⟩ := queue_append.mp htake
    have hmhi := hdrop.le
    have hprev : Serial.lt prev.seq (pos S.irs p) = true := by
      have hall := all_takeWhile (l := l)
        (p := fun cur => Serial.lt cur.seq (pos S.irs p))
      rw [hpre] at hall
      simpa using all_eq_true.mp hall prev (by simp)
    have hlo := hinit.le
    have hm : o + prev.data.length ≤ m := hm
    have hop := (Near.lt_iff S.irs (Near.between hbase (hlo.trans ho) (by omega) hhi) hp).mp
      (hat.seq_eq ▸ hprev)
    have hgt := Near.gt_iff S.irs
      (Near.between (b := o + prev.data.length) hbase (by omega) (by omega) hhi) hp
    rw [← hat.endSeq_eq] at hgt
    simp only [hlast]
    by_cases hover : p < o + prev.data.length
    · rw [if_pos (hgt.mpr hover), dropLast_concat]
      refine ⟨by simpa using hwhole, hinit.mono le_rfl (by omega), ?_⟩
      intro hend
      have := hat.inside
      omega
    · rw [if_neg fun h => hover (hgt.mp h)]
      refine ⟨hwhole, queue_append.mpr ⟨m', hinit, o, ho, hat, ?_⟩, fun _ => hpdrop⟩
      simp only [Queue]
      omega

/-- The gauges of an owner over all its streams. -/
def OfoOwner.gauges (state : OfoOwner) : Nat × Nat := (state.segmentsCurrent, state.bytesCurrent)

/-- Only the owner's counters and the remaining answers of the environment differ, the gauges do
not. -/
def Rx.OnlyOwner (rx rx' : Rx) : Prop :=
  ∃ owner env, rx' = { rx with owner := owner, env := env } ∧ owner.gauges = rx.owner.gauges

theorem Rx.OnlyOwner.refl (rx : Rx) : rx.OnlyOwner rx := ⟨rx.owner, rx.env, rfl, rfl⟩

theorem Rx.OnlyOwner.trans (h : rx.OnlyOwner rx') (h' : rx'.OnlyOwner rx'') :
    rx.OnlyOwner rx'' := by
  obtain ⟨owner, env, rfl, hgauges⟩ := h
  obtain ⟨owner', env', rfl, hgauges'⟩ := h'
  exact ⟨owner', env', rfl, hgauges'.trans hgauges⟩

theorem count_onlyOwner (rx : Rx) {f : OfoOwner → OfoOwner}
    (hf : (f rx.owner).gauges = rx.owner.gauges) : rx.OnlyOwner (rx.count f) :=
  ⟨f rx.owner, rx.env, rfl, hf⟩

theorem ofoSetPressure_gauges (state : OfoOwner) (pressure : Bool) :
    (tcpOfoSetPressure state pressure).gauges = state.gauges := by
  rw [tcpOfoSetPressure]
  split_ifs <;> rfl

theorem updatePressure_onlyOwner (rx : Rx) : rx.OnlyOwner (tcpOfoUpdatePressure rx) := by
  refine ⟨_, _, rfl, ?_⟩
  simp only
  split_ifs <;> first | exact ofoSetPressure_gauges _ _ | rfl

theorem effectiveLimits_onlyOwner (rx : Rx) (distance : Nat) :
    rx.OnlyOwner (tcpOfoEffectiveLimits rx distance).2 := by
  simp only [tcpOfoEffectiveLimits]
  split_ifs <;> exact updatePressure_onlyOwner rx

/-- No limit exceeds the ones without memory pressure. -/
theorem effectiveLimits_le (rx : Rx) (distance : Nat) :
    (tcpOfoEffectiveLimits rx distance).1.segments ≤ tcpOfoMaxSegs ∧
      (tcpOfoEffectiveLimits rx distance).1.bytes ≤ tcpOfoMaxBytes := by
  simp only [tcpOfoEffectiveLimits]
  split_ifs <;> simp [tcpOfoMaxSegs, tcpOfoMaxBytes, tcpRcvbufSize]

theorem admit_onlyOwner (rx : Rx) (limits : OfoLimits) (len : Nat) :
    rx.OnlyOwner (tcpOfoAdmit rx limits len).2 := by
  unfold tcpOfoAdmit
  split_ifs <;> first | exact ⟨_, _, rfl, rfl⟩ | (simp only; split_ifs <;> exact ⟨_, _, rfl, rfl⟩)

/-- What admission checks. -/
theorem admit_true {limits : OfoLimits} {len : Nat} (h : (tcpOfoAdmit rx limits len).1 = true) :
    len ≤ tcpRcvWnd rx ∧ rx.ofoCount < limits.segments ∧ rx.ofoBytes + len ≤ limits.bytes := by
  unfold tcpOfoAdmit at h
  split_ifs at h with hwnd hsegs hbytes
  all_goals
    simp only [Bool.or_eq_true, decide_eq_true_eq, not_or] at hbytes
    omega

theorem recordDrop_onlyOwner (rx : Rx) (seq : Seq) (len : Nat) (hasFin : Bool) :
    rx.OnlyOwner (tcpOfoRecordRcvWindowDrop rx seq len hasFin) := by
  unfold tcpOfoRecordRcvWindowDrop
  split_ifs
  · exact .refl rx
  · exact count_onlyOwner rx rfl

/-- What `tcp_ofo_link` can do: refuse, find nothing to link, or insert exactly one node that the
window and the limits have room for. -/
theorem tcpOfoLink_cases (rx : Rx) (pre rest : List OfoSeg) (seq : Seq) (data : List UInt8)
    (hasFin : Bool) :
    (rx.OnlyOwner (tcpOfoLink rx pre rest seq data hasFin).2 ∧
      ((tcpOfoLink rx pre rest seq data hasFin).1 = true →
        data = [] ∧ hasFin = false ∨ ∃ cur ∈ rest.head?, cur.seq = seq)) ∨
    ((tcpOfoLink rx pre rest seq data hasFin).1 = true ∧ (data = [] → hasFin = true) ∧
      (∀ cur ∈ rest.head?, cur.seq ≠ seq) ∧ data.length ≤ tcpRcvWnd rx ∧
      rx.ofoCount < tcpOfoMaxSegs ∧ rx.ofoBytes + data.length ≤ tcpOfoMaxBytes ∧
      ∃ peak owner env,
        owner.gauges = (rx.owner.segmentsCurrent + 1, rx.owner.bytesCurrent + data.length) ∧
        (tcpOfoLink rx pre rest seq data hasFin).2 = { rx with
          ofo := pre ++ (⟨seq, data, hasFin⟩ : OfoSeg) :: rest
          ofoCount := rx.ofoCount + 1
          ofoBytes := rx.ofoBytes + data.length
          ofoReorderDistancePeak := peak
          rcvbufUsed := rx.rcvbufUsed + data.length
          owner := owner
          env := env }) := by
  rw [tcpOfoLink]
  by_cases hempty : (data.length = 0 && !hasFin) = true
  · rw [if_pos hempty]
    exact .inl ⟨.refl rx, fun _ => .inl (by simpa using hempty)⟩
  rw [if_neg hempty]
  by_cases hbefore : (rest.head?.any fun before => before.seq == seq) = true
  · rw [if_pos hbefore]
    exact .inl ⟨.refl rx, fun _ => .inr (by simpa [Option.any_eq_true] using hbefore)⟩
  rw [if_neg hbefore]
  simp only
  generalize (if Serial.gt seq rx.recvAck then (seq - rx.recvAck).toNat else 0) = distance
  have hcount := count_onlyOwner rx (f := fun state => { state with
    reorderDistanceMax := max state.reorderDistanceMax distance }) rfl
  generalize (rx.count fun state => _) = rx1 at hcount ⊢
  generalize max distance rx.ofoReorderDistancePeak = peak
  have hle := effectiveLimits_le rx1 peak
  have hlimits := hcount.trans (effectiveLimits_onlyOwner rx1 peak)
  generalize tcpOfoEffectiveLimits rx1 peak = limited at hlimits hle ⊢
  have hroom := @admit_true limited.2 limited.1 data.length
  have howner := hlimits.trans (admit_onlyOwner limited.2 limited.1 data.length)
  generalize tcpOfoAdmit limited.2 limited.1 data.length = admitted at howner hroom ⊢
  rcases admitted with ⟨_ | _, rx3⟩
  · exact .inl ⟨howner, fun h => absurd h (by simp)⟩
  · obtain ⟨hwnd, hsegs, hbytes⟩ := hroom rfl
    obtain ⟨owner', env', hlimited, -⟩ := hlimits
    rw [hlimited] at hwnd hsegs hbytes
    obtain ⟨owner, env, rfl, hgauges⟩ := howner
    obtain ⟨owner'', env'', hpressure, hgauges''⟩ := updatePressure_onlyOwner
      (Rx.count { rx with
        ofo := pre ++ (⟨seq, data, hasFin⟩ : OfoSeg) :: rest
        ofoCount := rx.ofoCount + 1
        ofoBytes := rx.ofoBytes + data.length
        ofoReorderDistancePeak := peak
        rcvbufUsed := rx.rcvbufUsed + data.length
        owner := owner
        env := env } fun state => tcpOfoMetricsAccept state data.length)
    refine .inr ⟨rfl, fun hdata => ?_, ?_, hwnd, hsegs.trans_le hle.1, hbytes.trans hle.2, peak,
      owner'', env'', ?_, hpressure⟩
    · simpa [hdata] using hempty
    · intro cur hcur hseq
      exact hbefore (by simp [Option.mem_def.mp hcur, hseq])
    · rw [hgauges'']
      simp only [OfoOwner.gauges, Prod.mk.injEq] at hgauges
      simp only [Rx.count, OfoOwner.gauges, tcpOfoMetricsAccept, hgauges.1, hgauges.2]

/-- The reading position, the readable bytes and the buffer size are the same. -/
structure Rx.SameReader (rx rx' : Rx) : Prop where
  recvAck : rx'.recvAck = rx.recvAck
  rcvbufSize : rx'.rcvbufSize = rx.rcvbufSize
  peerEof : rx'.peerEof = rx.peerEof
  rxCurrent : rx'.rxCurrent = rx.rxCurrent
  rxQueue : rx'.rxQueue = rx.rxQueue

theorem Rx.SameReader.refl (rx : Rx) : rx.SameReader rx := ⟨rfl, rfl, rfl, rfl, rfl⟩

theorem Rx.SameReader.trans (h : rx.SameReader rx') (h' : rx'.SameReader rx'') :
    rx.SameReader rx'' :=
  ⟨h'.1.trans h.1, h'.2.trans h.2, h'.3.trans h.3, h'.4.trans h.4, h'.5.trans h.5⟩

theorem Rx.OnlyOwner.sameReader (h : rx.OnlyOwner rx') : rx.SameReader rx' := by
  obtain ⟨owner, env, rfl, -⟩ := h
  exact ⟨rfl, rfl, rfl, rfl, rfl⟩

theorem Rx.OnlyOwner.ofo (h : rx.OnlyOwner rx') : rx'.ofo = rx.ofo := by
  obtain ⟨owner, env, rfl, -⟩ := h
  rfl

theorem Cut.at (h : Cut S p data hasFin) : OfoSeg.At S p ⟨pos S.irs p, data, hasFin⟩ :=
  ⟨h, rfl⟩

theorem Cut.take (h : Cut S p data hasFin) (n : Nat) : Cut S p (data.take n) false := by
  have hlen : (data.take n).length ≤ data.length := by simp
  have := h.inside
  exact ⟨(List.take_prefix n data).trans h.bytes, by omega, fun hfin => absurd hfin (by simp)⟩

theorem Cut.drop (h : Cut S p data hasFin) {n : Nat} (hn : n ≤ data.length) :
    Cut S (p + n) (data.drop n) hasFin := by
  have hin := h.inside
  refine ⟨?_, ?_, fun hfin => ?_⟩
  · rw [← drop_drop]
    exact h.bytes.drop n
  · rw [length_drop]
    omega
  · obtain ⟨hS, hend⟩ := h.fin_end hfin
    refine ⟨hS, ?_⟩
    rw [length_drop]
    omega

/-- Clipping on the right leaves a cut; the FIN may be withheld. -/
theorem Cut.clip (h : Cut S p data hasFin) (clipped keep : Bool) (n : Nat) :
    Cut S p (if clipped then data.take n else data) (hasFin && !clipped && keep) := by
  cases clipped with
  | true => simpa using h.take n
  | false =>
    refine ⟨h.bytes, h.inside, fun hfin => h.fin_end ?_⟩
    simp only [Bool.and_eq_true] at hfin
    exact hfin.1.1

/-- Linking a cut between nodes that end below it and nodes that start above it. -/
theorem tcpOfoLink_queue (hofo : rx.ofo = pre ++ rest) (hqueue : Queue S lo (pre ++ rest) hi)
    (hpre : Queue S lo pre p) (hcut : Cut S p data hasFin)
    (hrest : Queue S (p + data.length) rest hi) :
    rx.SameReader (tcpOfoLink rx pre rest (pos S.irs p) data hasFin).2 ∧
      Queue S lo (tcpOfoLink rx pre rest (pos S.irs p) data hasFin).2.ofo hi := by
  rcases tcpOfoLink_cases rx pre rest (pos S.irs p) data hasFin with
    ⟨howner, -⟩ | ⟨-, -, -, -, -, -, peak, owner, env, -, heq⟩
  · rw [howner.ofo, hofo]
    exact ⟨howner.sameReader, hqueue⟩
  · rw [heq]
    exact ⟨⟨rfl, rfl, rfl, rfl, rfl⟩, queue_append.mpr ⟨p, hpre, p, le_rfl, hcut.at, hrest⟩⟩

/-- A segment that ends behind the first `skip` bytes, with its data or its FIN, goes on there. -/
theorem le_of_not_covered {skip len : Nat}
    (h : ¬(decide (skip > len) || decide (skip = len) && !hasFin) = true) : skip ≤ len := by
  by_contra hgt
  exact h (by simp [show len < skip by omega])

/-- The overlap loop keeps the chain: below the cursor nothing changes, at the cursor only bytes of
the segment that no node holds are linked. -/
theorem tcpOfoInsertLoop_queue (hbase : base ≤ lo) (hhi : Near base hi)
    (hofo : rx.ofo = pre ++ rest) (hqueue : Queue S lo (pre ++ rest) hi) (hpre : Queue S lo pre p)
    (hcut : Cut S p data hasFin) (hend : p + data.length ≤ hi)
    (hempty : data.length = 0 → Queue S p rest hi) :
    rx.SameReader (tcpOfoInsertLoop hasFin rx pre rest (pos S.irs p) data).2 ∧
      Queue S lo (tcpOfoInsertLoop hasFin rx pre rest (pos S.irs p) data).2.ofo hi := by
  induction rest generalizing rx pre p data with
  | nil =>
    rw [tcpOfoInsertLoop]
    exact tcpOfoLink_queue hofo hqueue hpre hcut hend
  | cons cur rest ih =>
    rw [tcpOfoInsertLoop]
    by_cases hlen : data.length = 0
    · rw [if_pos hlen]
      exact tcpOfoLink_queue hofo hqueue hpre hcut (by simpa [hlen] using hempty hlen)
    rw [if_neg hlen]
    obtain ⟨m, hprem, o, hmo, hat, hrest⟩ := queue_append.mp hqueue
    have hlom := hprem.le
    have hlop := hpre.le
    have hohi := hrest.le
    have hnearp : Near base p := Near.between hbase hlop (by omega) hhi
    have hneare : Near base (o + cur.data.length) := Near.between hbase (by omega) hohi hhi
    have hnearo : Near base o := Near.between hbase (by omega) (by omega) hhi
    have hnears : Near base (p + data.length) := Near.between hbase (by omega) hend hhi
    have hdone : rx.SameReader rx ∧ Queue S lo rx.ofo hi := ⟨.refl rx, hofo ▸ hqueue⟩
    simp only [hat.endSeq_eq, hat.seq_eq, pos_add, Near.leq_iff _ hneare hnearp,
      Near.leq_iff _ hnears hnearo, Near.lt_iff _ hnearp hnearo]
    by_cases hbelow : o + cur.data.length ≤ p
    · rw [if_pos hbelow]
      exact ih (by simpa using hofo) (by simpa using hqueue)
        (queue_append.mpr ⟨m, hprem, o, hmo, hat, hbelow⟩) hcut hend (fun h => absurd h hlen)
    rw [if_neg hbelow]
    by_cases habove : p + data.length ≤ o
    · rw [if_pos habove]
      exact tcpOfoLink_queue hofo hqueue hpre hcut ⟨o, habove, hat, hrest⟩
    rw [if_neg habove, Near.toNat_sub _ hneare hnearp (by omega)]
    -- the part of the segment behind `cur` goes on, whatever was linked before `cur`
    have hbehind : ∀ {rx' : Rx} {pre' : List OfoSeg}, rx'.ofo = pre' ++ cur :: rest →
        Queue S lo pre' o → o + cur.data.length - p ≤ data.length →
        rx'.SameReader (tcpOfoInsertLoop hasFin rx' (pre' ++ [cur]) rest
          (pos S.irs (o + cur.data.length)) (data.drop (o + cur.data.length - p))).2 ∧
        Queue S lo (tcpOfoInsertLoop hasFin rx' (pre' ++ [cur]) rest
          (pos S.irs (o + cur.data.length)) (data.drop (o + cur.data.length - p))).2.ofo
          hi := by
      intro rx' pre' hofo' hpre' hskip
      have hcut' := hcut.drop hskip
      rw [show p + (o + cur.data.length - p) = o + cur.data.length by omega] at hcut'
      refine ih (by simpa using hofo') ?_ ?_ hcut' ?_ (fun _ => hrest)
      · have hwhole : Queue S lo (pre' ++ cur :: rest) hi :=
          queue_append.mpr ⟨o, hpre', o, le_rfl, hat, hrest⟩
        simpa using hwhole
      · exact queue_append.mpr ⟨o, hpre', o, le_rfl, hat, le_rfl⟩
      · rw [length_drop]
        omega
    by_cases hleft : p < o
    · rw [if_pos hleft, Near.toNat_sub _ hnearo hnearp (by omega)]
      have htake : (data.take (o - p)).length = o - p := by
        rw [length_take]
        omega
      rcases tcpOfoLink_cases rx pre (cur :: rest) (pos S.irs p) (data.take (o - p)) false
        with ⟨howner, hnone⟩ | ⟨hok, -, -, -, -, -, peak, owner, env, -, heq⟩
      · generalize tcpOfoLink rx pre (cur :: rest) _ _ false = linked at howner hnone ⊢
        obtain ⟨_ | _, rx'⟩ := linked
        · exact ⟨howner.sameReader, by rw [howner.ofo, hofo]; exact hqueue⟩
        · exfalso
          rcases hnone rfl with ⟨hnil, -⟩ | ⟨cur', hcur', hseq⟩
          · rw [hnil, length_nil] at htake
            omega
          · obtain rfl : cur = cur' := by simpa using hcur'
            rw [hat.seq_eq, Serial.pos_inj _ (by unfold Near Serial.Near at *; omega)
              (by unfold Near Serial.Near at *; omega)] at hseq
            omega
      · generalize tcpOfoLink rx pre (cur :: rest) _ _ false = linked at hok heq ⊢
        obtain ⟨ok, rx'⟩ := linked
        obtain rfl : ok = true := hok
        have hsame : rx.SameReader rx' := by
          rw [show rx' = _ from heq]
          exact ⟨rfl, rfl, rfl, rfl, rfl⟩
        have hofo' : rx'.ofo = (pre ++ [⟨pos S.irs p, data.take (o - p), false⟩]) ++
            cur :: rest := by
          rw [show rx' = _ from heq]
          simp
        have hpre' : Queue S lo (pre ++ [⟨pos S.irs p, data.take (o - p), false⟩]) o := by
          refine queue_append.mpr ⟨p, hpre, p, le_rfl, (hcut.take (o - p)).at, ?_⟩
          simp only [Queue, htake]
          omega
        simp only
        split_ifs with hskip
        · refine ⟨hsame, ?_⟩
          rw [hofo']
          exact queue_append.mpr ⟨o, hpre', o, le_rfl, hat, hrest⟩
        · obtain ⟨hsame', hqueue'⟩ := hbehind hofo' hpre' (le_of_not_covered hskip)
          simp only [append_assoc, cons_append, nil_append] at hsame' hqueue'
          exact ⟨hsame.trans hsame', hqueue'⟩
    · rw [if_neg hleft]
      split_ifs with hskip
      · exact hdone
      · exact hbehind hofo (hprem.mono le_rfl hmo) (le_of_not_covered hskip)

theorem tcpRcvWnd_le (rx : Rx) : tcpRcvWnd rx ≤ rx.rcvbufSize := by
  unfold tcpRcvWnd
  split_ifs <;> omega

/-- What is left of a segment that is clipped at the offset `w` ends there. -/
theorem clip_end_le {clipped : Bool} {w : Nat} (hin : p ≤ w)
    (hclip : clipped = true ↔ w < p + data.length) :
    p + (if clipped = true then data.take (w - p) else data).length ≤ w := by
  cases clipped with
  | true =>
    rw [if_pos rfl, length_take]
    omega
  | false =>
    have hnot := mt hclip.mpr (by simp)
    rw [if_neg (by simp)]
    omega

/-- Queueing a cut that starts at or above `recv_ack` keeps the chain. -/
theorem tcpOfoQueueAhead_queue (hack : rx.recvAck = pos S.irs k)
    (hsize : rx.rcvbufSize ≤ 2 ^ 18) (hqueue : Queue S k rx.ofo (k + 2 ^ 18))
    (hcut : Cut S p data hasFin) (hkp : k ≤ p) (hahead : p ≤ k + 2 ^ 20)
    (hlen : data.length ≤ 2 ^ 16) :
    rx.SameReader (tcpOfoQueueAhead rx (pos S.irs p) data hasFin).2 ∧
      Queue S k (tcpOfoQueueAhead rx (pos S.irs p) data hasFin).2.ofo (k + 2 ^ 18) := by
  have hwnd := (tcpRcvWnd_le rx).trans hsize
  have hhi : Near k (k + 2 ^ 18) := ⟨by omega, by omega⟩
  have hnearp : Near k p := ⟨hkp, by omega⟩
  have hnearw : Near k (k + tcpRcvWnd rx) := ⟨by omega, by omega⟩
  have hneare : Near k (p + data.length) := ⟨by omega, by omega⟩
  have hsame : rx.SameReader rx ∧ Queue S k rx.ofo (k + 2 ^ 18) := ⟨.refl rx, hqueue⟩
  simp only [tcpOfoQueueAhead, hack, pos_add]
  by_cases hin : p < k + tcpRcvWnd rx
  · rw [(Near.lt_iff _ hnearp hnearw).mpr hin, Near.toNat_sub _ hnearw hnearp (by omega)]
    have hclip := Near.gt_iff S.irs hneare hnearw
    generalize Serial.gt (pos S.irs (p + data.length)) _ = clipped at hclip ⊢
    generalize hdata : (if clipped = true then data.take (k + tcpRcvWnd rx - p) else data) = data'
    have hcut' : Cut S p data' (hasFin && !clipped) := by
      simpa [hdata] using hcut.clip clipped true (k + tcpRcvWnd rx - p)
    have hend : p + data'.length ≤ k + 2 ^ 18 := by
      have hle := clip_end_le hin.le hclip
      rw [hdata] at hle
      omega
    simp only [Bool.not_true, Bool.false_eq_true, if_false]
    split_ifs with hnone
    · exact hsame
    · obtain ⟨hwhole, hpre, hrest⟩ := hqueue.cursor le_rfl hkp hnearp (by omega) hhi
      refine tcpOfoInsertLoop_queue le_rfl hhi hwhole.symm (by rwa [hwhole]) hpre hcut' hend ?_
      intro hzero
      have hfin : (hasFin && !clipped) = true := by simpa [hzero] using hnone
      have hstop := (hcut'.fin_end hfin).2
      exact hrest (by omega)
  · rw [Bool.eq_false_iff.mpr (mt (Near.lt_iff _ hnearp hnearw).mp hin)]
    simp only [Bool.not_false, if_true]
    split_ifs
    · exact hsame
    · have howner := recordDrop_onlyOwner rx (pos S.irs p) data.length hasFin
      exact ⟨howner.sameReader, howner.ofo ▸ hqueue⟩

/-- Queueing any cut of the stream that starts near the window keeps the chain. -/
theorem tcpOfoQueueInsert_queue (hack : rx.recvAck = pos S.irs k)
    (hsize : rx.rcvbufSize ≤ 2 ^ 18) (hqueue : Queue S k rx.ofo (k + 2 ^ 18))
    (hcut : Cut S p data hasFin) (hback : k ≤ p + 2 ^ 20) (hahead : p ≤ k + 2 ^ 20)
    (hlen : data.length ≤ 2 ^ 16) :
    rx.SameReader (tcpOfoQueueInsert rx (pos S.irs p) data hasFin).2 ∧
      Queue S k (tcpOfoQueueInsert rx (pos S.irs p) data hasFin).2.ofo (k + 2 ^ 18) := by
  have hnearp : Near (k - 2 ^ 20) p := ⟨by omega, by omega⟩
  have hneark : Near (k - 2 ^ 20) k := ⟨by omega, by omega⟩
  rw [tcpOfoQueueInsert, hack]
  by_cases hold : p < k
  · rw [if_pos ((Near.lt_iff _ hnearp hneark).mpr hold)]
    simp only [Near.toNat_sub _ hneark hnearp (le_of_lt hold)]
    split_ifs with hskip
    · exact ⟨.refl rx, hqueue⟩
    · have hle := le_of_not_covered hskip
      have hcut' := hcut.drop hle
      rw [show p + (k - p) = k by omega] at hcut'
      exact tcpOfoQueueAhead_queue hack hsize hqueue hcut' le_rfl (by omega)
        (by rw [length_drop]; omega)
  · rw [if_neg (mt (Near.lt_iff _ hnearp hneark).mp hold)]
    exact tcpOfoQueueAhead_queue hack hsize hqueue hcut (by omega) hahead hlen

end SnowTG.Tcp
