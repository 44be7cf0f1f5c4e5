import SnowTG.Tcp.Types

/-!
# The send buffer

`struct tcp_sndbuf`: the bytes of the stream from `head_seq` on that the peer
has not acknowledged, kept in fixed-size chunks.  A chunk holds the bytes
written to it and the number of its leading bytes that were acknowledged.  The
buffer stands for one byte string; appending, removing and peeking are the
operations on that string.
-/

namespace SnowTG.Tcp

open SnowTG.Lib List

/-- `struct tcp_tx_chunk`: the bytes written so far and how many of them are acknowledged. -/
structure TxChunk where
  data : List UInt8
  off : Nat
  deriving DecidableEq, Repr

/-- `struct tcp_sndbuf`. -/
structure Sndbuf where
  chunks : List TxChunk := []
  len : Nat := 0
  headSeq : Seq
  unacked : Nat := 0
  deriving DecidableEq, Repr

/-- `tcp_sndbuf_init`; also `tcp_sndbuf_reset`, which frees the chunks first. -/
def tcpSndbufInit (isn : Seq) : Sndbuf := { headSeq := isn }

/-- Room left in the tail chunk. -/
def Sndbuf.tailSpace (sb : Sndbuf) : Nat :=
  match sb.chunks.getLast? with
  | none => 0
  | some chunk => tcpMemoryChunkSize - chunk.data.length

/-- Link an empty chunk behind the tail. -/
def Sndbuf.pushChunk (sb : Sndbuf) : Sndbuf := { sb with chunks := sb.chunks ++ [⟨[], 0⟩] }

/-- Copy bytes into the tail chunk. -/
def Sndbuf.writeTail (sb : Sndbuf) (bytes : List UInt8) : Sndbuf :=
  match sb.chunks.getLast? with
  | none => sb
  | some chunk =>
    { sb with
      chunks := sb.chunks.dropLast ++ [⟨chunk.data ++ bytes, chunk.off⟩]
      len := sb.len + bytes.length }

/-- The tail chunk the next bytes go to: the old one while it has room, else a new one if the
chunk and its storage can be allocated. -/
def sndbufTail (sb : Sndbuf) (env : Tape) : Option Sndbuf × Tape :=
  if sb.tailSpace ≠ 0 then (some sb, env)
  else
    let (chunk, env) := env.ask
    if chunk = 0 then (none, env)
    else
      let (storage, env) := env.ask
      if storage = 0 then (none, env) else (some sb.pushChunk, env)

/-- Loop of `tcp_sndbuf_append`; every round copies at least one byte, so as many rounds as bytes
are enough.  The last component is the number of bytes copied. -/
def tcpSndbufAppendLoop : Nat → Sndbuf → Tape → List UInt8 → Sndbuf × Tape × Nat
  | 0, sb, env, _ => (sb, env, 0)
  | rounds + 1, sb, env, data =>
    if data = [] then (sb, env, 0)
    else
      match sndbufTail sb env with
      | (none, env) => (sb, env, 0)
      | (some sb, env) =>
        let take := data.take sb.tailSpace
        let rest :=
          tcpSndbufAppendLoop rounds (sb.writeTail take) env (data.drop sb.tailSpace)
        (rest.1, rest.2.1, take.length + rest.2.2)

/-- `tcp_sndbuf_append`: the buffer, the remaining answers and the number of bytes accepted; zero
is the failure value. -/
def tcpSndbufAppend (sb : Sndbuf) (env : Tape) (data : List UInt8) : Sndbuf × Tape × Nat :=
  tcpSndbufAppendLoop data.length sb env data

/-- Loop of `tcp_sndbuf_remove` over the chunks: those left and the number of bytes taken. -/
def sndbufRemoveChunks : Nat → List TxChunk → List TxChunk × Nat
  | 0, chunks => (chunks, 0)
  | _ + 1, [] => ([], 0)
  | len + 1, chunk :: next =>
    let take := min (len + 1) (chunk.data.length - chunk.off)
    if chunk.off + take = chunk.data.length then
      let rest := sndbufRemoveChunks (len + 1 - take) next
      (rest.1, take + rest.2)
    else (⟨chunk.data, chunk.off + take⟩ :: next, take)

/-- `tcp_sndbuf_remove`. -/
def tcpSndbufRemove (sb : Sndbuf) (len : Nat) : Sndbuf :=
  let len := min len sb.len
  let removed := sndbufRemoveChunks len sb.chunks
  { chunks := removed.1
    len := sb.len - removed.2
    headSeq := sb.headSeq + BitVec.ofNat 32 removed.2
    unacked := sb.unacked - min len sb.unacked }

/-- Loop of `tcp_sndbuf_peek`: the rest of the chunk that holds the byte `skip` behind the head. -/
def sndbufPeekChunks : Nat → List TxChunk → Option (List UInt8)
  | _, [] => none
  | skip, chunk :: next =>
    if skip < chunk.data.length - chunk.off then some (chunk.data.drop (chunk.off + skip))
    else sndbufPeekChunks (skip - (chunk.data.length - chunk.off)) next

/-- `tcp_sndbuf_peek`: the bytes from `seq` to the end of their chunk. -/
def tcpSndbufPeek (sb : Sndbuf) (seq : Seq) : Option (List UInt8) :=
  if Serial.lt seq sb.headSeq || !Serial.lt seq (sb.headSeq + BitVec.ofNat 32 sb.len) then none
  else sndbufPeekChunks (seq - sb.headSeq).toNat sb.chunks

/-- The bytes of a chunk that are not acknowledged. -/
def TxChunk.unread (chunk : TxChunk) : List UInt8 := chunk.data.drop chunk.off

/-- The byte string the buffer stands for. -/
def Sndbuf.bytes (sb : Sndbuf) : List UInt8 := (sb.chunks.map TxChunk.unread).flatten

/-- A chunk in the list has unacknowledged bytes and fits its storage. -/
def TxChunk.Ok (chunk : TxChunk) : Prop :=
  chunk.off < chunk.data.length ∧ chunk.data.length ≤ tcpMemoryChunkSize

/-- The length is that of the byte string, and no chunk is used up. -/
structure Sndbuf.Ok (sb : Sndbuf) : Prop where
  length : sb.len = sb.bytes.length
  chunks : ∀ chunk ∈ sb.chunks, chunk.Ok

variable {sb : Sndbuf} {bytes : List UInt8}

theorem sndbufInit_ok (isn : Seq) : (tcpSndbufInit isn).Ok := ⟨rfl, by simp [tcpSndbufInit]⟩

section Append

/-- The tail chunk has room, and everything but an empty tail is in order. -/
structure Sndbuf.Ready (sb : Sndbuf) : Prop where
  length : sb.len = sb.bytes.length
  tail : ∃ pre chunk, sb.chunks = pre ++ [chunk] ∧ (∀ c ∈ pre, c.Ok) ∧
    chunk.off ≤ chunk.data.length ∧ chunk.data.length < tcpMemoryChunkSize

theorem tailSpace_append (pre : List TxChunk) (chunk : TxChunk)
    (h : sb.chunks = pre ++ [chunk]) : sb.tailSpace = tcpMemoryChunkSize - chunk.data.length := by
  simp [Sndbuf.tailSpace, h]

theorem Sndbuf.Ok.ready (h : sb.Ok) (hspace : sb.tailSpace ≠ 0) : sb.Ready := by
  refine ⟨h.length, ?_⟩
  rcases eq_nil_or_concat sb.chunks with hnil | ⟨pre, chunk, heq⟩
  · simp [Sndbuf.tailSpace, hnil] at hspace
  · rw [concat_eq_append] at heq
    have hspace' := tailSpace_append pre chunk heq
    have hchunk := h.chunks chunk (by simp [heq])
    exact ⟨pre, chunk, heq, fun c hc => h.chunks c (by simp [heq, hc]), hchunk.1.le, by omega⟩

theorem Sndbuf.Ok.pushChunk_ready (h : sb.Ok) : sb.pushChunk.Ready := by
  refine ⟨?_, sb.chunks, ⟨[], 0⟩, rfl, h.chunks, le_rfl, by decide⟩
  simpa [Sndbuf.pushChunk, Sndbuf.bytes, TxChunk.unread] using h.length

theorem pushChunk_bytes (sb : Sndbuf) : sb.pushChunk.bytes = sb.bytes := by
  simp [Sndbuf.pushChunk, Sndbuf.bytes, TxChunk.unread]

/-- The tail that `tcp_sndbuf_append` writes to holds the same byte string. -/
theorem sndbufTail_spec (h : sb.Ok) (env : Tape) {sb' : Sndbuf} {env' : Tape}
    (htail : sndbufTail sb env = (some sb', env')) :
    sb'.Ready ∧ sb'.bytes = sb.bytes ∧ sb'.headSeq = sb.headSeq ∧ sb'.unacked = sb.unacked := by
  simp only [sndbufTail] at htail
  split_ifs at htail with hspace hchunk hstorage
  · obtain ⟨rfl, -⟩ := Prod.mk.inj htail |>.imp_left Option.some.inj
    exact ⟨h.ready hspace, rfl, rfl, rfl⟩
  · simp at htail
  · simp at htail
  · obtain ⟨rfl, -⟩ := Prod.mk.inj htail |>.imp_left Option.some.inj
    exact ⟨h.pushChunk_ready, pushChunk_bytes sb, rfl, rfl⟩

/-- Writing bytes that fit appends them. -/
theorem Sndbuf.Ready.writeTail (h : sb.Ready) (hne : bytes ≠ [])
    (hfit : bytes.length ≤ sb.tailSpace) :
    (sb.writeTail bytes).Ok ∧ (sb.writeTail bytes).bytes = sb.bytes ++ bytes ∧
      (sb.writeTail bytes).headSeq = sb.headSeq ∧ (sb.writeTail bytes).unacked = sb.unacked := by
  obtain ⟨hlen, pre, chunk, heq, hpre, hoff, hroom⟩ := h
  rw [tailSpace_append pre chunk heq] at hfit
  have hpos := length_pos_iff.mpr hne
  have hwrite : sb.writeTail bytes =
      { sb with
        chunks := pre ++ [⟨chunk.data ++ bytes, chunk.off⟩]
        len := sb.len + bytes.length } := by
    simp [Sndbuf.writeTail, heq]
  have hbytes : (sb.writeTail bytes).bytes = sb.bytes ++ bytes := by
    simp [hwrite, Sndbuf.bytes, heq, TxChunk.unread, drop_append_of_le_length hoff]
  refine ⟨⟨?_, ?_⟩, hbytes, by rw [hwrite], by rw [hwrite]⟩
  · rw [hbytes, length_append, ← hlen, hwrite]
  · intro c hc
    rw [hwrite] at hc
    rcases mem_append.mp hc with hc | hc
    · exact hpre c hc
    · obtain rfl := mem_singleton.mp hc
      constructor
      · simp only [length_append]
        omega
      · simp only [length_append]
        omega

theorem tcpSndbufAppendLoop_spec (rounds : Nat) (h : sb.Ok) (env : Tape) (data : List UInt8) :
    ∃ n ≤ data.length, ∃ sb' env', tcpSndbufAppendLoop rounds sb env data = (sb', env', n) ∧
      sb'.Ok ∧ sb'.bytes = sb.bytes ++ data.take n ∧ sb'.headSeq = sb.headSeq ∧
      sb'.unacked = sb.unacked := by
  induction rounds generalizing sb env data with
  | zero => exact ⟨0, zero_le, sb, env, rfl, h, by simp, rfl, rfl⟩
  | succ rounds ih =>
    rw [tcpSndbufAppendLoop]
    by_cases hdata : data = []
    · rw [if_pos hdata]
      exact ⟨0, zero_le, sb, env, rfl, h, by simp, rfl, rfl⟩
    · rw [if_neg hdata]
      cases htail : sndbufTail sb env with
      | mk tail env1 =>
        cases tail with
        | none => exact ⟨0, zero_le, sb, env1, rfl, h, by simp, rfl, rfl⟩
        | some sb1 =>
          obtain ⟨hready, hbytes, hhead, hunacked⟩ := sndbufTail_spec h env htail
          have hspace : 0 < sb1.tailSpace := by
            obtain ⟨-, pre, chunk, heq, -, -, hroom⟩ := hready
            rw [tailSpace_append pre chunk heq]
            omega
          have hne : data.take sb1.tailSpace ≠ [] := by
            simp [take_eq_nil_iff, hdata, hspace.ne']
          obtain ⟨hok, hbytes', hhead', hunacked'⟩ :=
            hready.writeTail hne (by simp [length_take])
          obtain ⟨n, hn, sb2, env2, heq, hok2, hbytes2, hhead2, hunacked2⟩ :=
            ih hok env1 (data.drop sb1.tailSpace)
          rw [length_drop] at hn
          refine ⟨(data.take sb1.tailSpace).length + n, ?_, sb2, env2, by simp [heq], hok2, ?_,
            by rw [hhead2, hhead', hhead], by rw [hunacked2, hunacked', hunacked]⟩
          · rw [length_take]
            omega
          · rw [hbytes2, hbytes', hbytes, append_assoc]
            congr 1
            rw [length_take]
            rcases le_total sb1.tailSpace data.length with hle | hle
            · rw [Nat.min_eq_left hle, take_add]
            · rw [Nat.min_eq_right hle, drop_eq_nil_of_le hle, take_nil,
                append_nil, take_of_length_le hle, take_of_length_le (Nat.le_add_right _ _)]

/-- `tcp_sndbuf_append` appends the prefix it reports. -/
theorem tcpSndbufAppend_spec (h : sb.Ok) (env : Tape) (data : List UInt8) :
    ∃ n ≤ data.length, ∃ sb' env', tcpSndbufAppend sb env data = (sb', env', n) ∧
      sb'.Ok ∧ sb'.bytes = sb.bytes ++ data.take n ∧ sb'.headSeq = sb.headSeq ∧
      sb'.unacked = sb.unacked :=
  tcpSndbufAppendLoop_spec _ h env data

end Append

section Remove

variable {chunks : List TxChunk}

theorem sndbufRemoveChunks_spec (len : Nat) (h : ∀ chunk ∈ chunks, chunk.Ok) :
    (∀ chunk ∈ (sndbufRemoveChunks len chunks).1, chunk.Ok) ∧
      ((sndbufRemoveChunks len chunks).1.map TxChunk.unread).flatten =
        (chunks.map TxChunk.unread).flatten.drop len ∧
      (sndbufRemoveChunks len chunks).2 = min len (chunks.map TxChunk.unread).flatten.length := by
  induction chunks generalizing len with
  | nil => cases len <;> simp [sndbufRemoveChunks]
  | cons chunk next ih =>
    cases len with
    | zero => simpa [sndbufRemoveChunks] using h
    | succ len =>
      have hchunk := h chunk (by simp)
      have hnext := ih (len + 1 - min (len + 1) (chunk.data.length - chunk.off))
        fun c hc => h c (by simp [hc])
      have hunread : chunk.unread.length = chunk.data.length - chunk.off := by
        simp [TxChunk.unread]
      have hpos := hchunk.1
      rw [sndbufRemoveChunks]
      simp only [map_cons, flatten_cons, length_append, drop_append]
      by_cases hall : chunk.data.length - chunk.off ≤ len + 1
      · -- the whole chunk is acknowledged and freed
        have htake : min (len + 1) (chunk.data.length - chunk.off) =
            chunk.data.length - chunk.off := Nat.min_eq_right hall
        rw [htake] at hnext ⊢
        rw [if_pos (by omega)]
        refine ⟨hnext.1, ?_, ?_⟩
        · have hdropped : chunk.unread.drop (len + 1) = [] :=
            drop_eq_nil_of_le (by omega)
          rw [hnext.2.1, hunread, hdropped, nil_append]
        · rw [hnext.2.2, hunread]
          omega
      · have htake : min (len + 1) (chunk.data.length - chunk.off) = len + 1 :=
          Nat.min_eq_left (by omega)
        rw [htake, if_neg (by omega)]
        refine ⟨?_, ?_, ?_⟩
        · intro c hc
          rcases mem_cons.mp hc with rfl | hc
          · exact ⟨by simp only; omega, hchunk.2⟩
          · exact h c (by simp [hc])
        · have hzero : len + 1 - chunk.unread.length = 0 := by omega
          rw [hzero, drop_zero, map_cons, flatten_cons]
          congr 1
          simp [TxChunk.unread, drop_drop]
        · rw [hunread]
          omega

/-- `tcp_sndbuf_remove` drops the acknowledged bytes from the front. -/
theorem tcpSndbufRemove_spec (h : sb.Ok) (len : Nat) :
    (tcpSndbufRemove sb len).Ok ∧ (tcpSndbufRemove sb len).bytes = sb.bytes.drop len ∧
      (tcpSndbufRemove sb len).headSeq = sb.headSeq + BitVec.ofNat 32 (min len sb.len) ∧
      (tcpSndbufRemove sb len).unacked = sb.unacked - min len sb.len := by
  obtain ⟨hchunks, hbytes, htaken⟩ := sndbufRemoveChunks_spec (min len sb.len) h.chunks
  have hlen : sb.len = (sb.chunks.map TxChunk.unread).flatten.length := h.length
  have hdrop : (tcpSndbufRemove sb len).bytes = sb.bytes.drop len := by
    rw [Sndbuf.bytes, tcpSndbufRemove, hbytes, Sndbuf.bytes, hlen]
    rcases le_total len (sb.chunks.map TxChunk.unread).flatten.length with hle | hle
    · rw [Nat.min_eq_left hle]
    · rw [Nat.min_eq_right hle, drop_eq_nil_of_le hle, drop_eq_nil_of_le le_rfl]
  refine ⟨⟨?_, hchunks⟩, hdrop, ?_, ?_⟩
  · rw [hdrop, length_drop, ← h.length]
    simp only [tcpSndbufRemove, htaken, ← hlen]
    omega
  · simp only [tcpSndbufRemove, htaken, ← hlen, Nat.min_eq_left (Nat.min_le_right len sb.len)]
  · simp only [tcpSndbufRemove]
    omega

end Remove

section Peek

theorem sndbufPeekChunks_spec {chunks : List TxChunk} {skip : Nat}
    (h : sndbufPeekChunks skip chunks = some bytes) :
    bytes ≠ [] ∧ bytes <+: (chunks.map TxChunk.unread).flatten.drop skip := by
  induction chunks generalizing skip with
  | nil => simp [sndbufPeekChunks] at h
  | cons chunk next ih =>
    have hunread : chunk.unread.length = chunk.data.length - chunk.off := by
      simp [TxChunk.unread]
    rw [sndbufPeekChunks] at h
    rw [map_cons, flatten_cons, drop_append]
    split_ifs at h with hskip
    · obtain rfl := Option.some.inj h
      constructor
      · rw [ne_eq, drop_eq_nil_iff]
        omega
      · rw [TxChunk.unread, drop_drop]
        exact prefix_append _ _
    · obtain ⟨hne, hprefix⟩ := ih h
      rw [drop_eq_nil_of_le (by omega), nil_append, hunread]
      exact ⟨hne, hprefix⟩

/-- `tcp_sndbuf_peek` finds bytes of the string at the offset of the sequence number. -/
theorem tcpSndbufPeek_spec (hsize : sb.len < 2 ^ 31) {seq : Seq}
    (h : tcpSndbufPeek sb seq = some bytes) :
    ∃ skip < sb.len, seq = Serial.pos sb.headSeq skip ∧ bytes ≠ [] ∧
      bytes <+: sb.bytes.drop skip := by
  rw [tcpSndbufPeek] at h
  split_ifs at h with hrange
  rw [Bool.not_eq_true, Bool.or_eq_false_iff, Bool.not_eq_false'] at hrange
  obtain ⟨x, hx, rfl⟩ := Serial.exists_eq_pos_add sb.headSeq seq 0
  rw [zero_add] at h hrange ⊢
  obtain ⟨hne, hprefix⟩ := sndbufPeekChunks_spec h
  have hhead := Serial.lt_pos_add_iff sb.headSeq 0 hx (Nat.two_pow_pos 32)
  have hend := Serial.lt_pos_add_iff sb.headSeq 0 hx (show sb.len < 2 ^ 32 by omega)
  simp only [zero_add, Serial.pos_zero] at hhead hend
  have hlow : ¬ 2 ^ 32 ≤ 2 * ((x + (2 ^ 32 - 0)) % 2 ^ 32) := by
    rw [← hhead, hrange.1]
    simp
  have hhigh := hend.mp hrange.2
  have hskip : (Serial.pos sb.headSeq x - sb.headSeq).toNat = x := by
    simpa using Serial.toNat_pos_sub_pos sb.headSeq zero_le (by omega)
  rw [hskip] at hprefix
  exact ⟨x, by omega, rfl, hne, hprefix⟩

end Peek

end SnowTG.Tcp
