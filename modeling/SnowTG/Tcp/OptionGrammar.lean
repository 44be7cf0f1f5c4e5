import SnowTG.Lib.Tlv
import SnowTG.Tcp.Options

/-!
# The grammar of TCP options

What the option bytes of a header say, stated apart from the parser: a
tag-length-value stream whose records are options of known form or of unknown
kind.  The parser accepts exactly the streams in which the known options are
legal and occur at most once, and returns what they announce.
-/

namespace SnowTG.Tcp.Options

open SnowTG.Lib List Option

/-- An option of a header. -/
inductive TcpOption where
  | mss (value : BitVec 16)
  | wscale (shift : UInt8)
  | sackPermitted
  | sack (blocks : List SackBlock)
  | timestamp (tsval tsecr : BitVec 32)
  | other (kind : UInt8) (data : List UInt8)
  deriving DecidableEq, Repr

namespace TcpOption

/-- Kind and data of an option. -/
def record : TcpOption → Tlv.Record
  | .mss value => ⟨2, Bytes.be16 value⟩
  | .wscale shift => ⟨3, [shift]⟩
  | .sackPermitted => ⟨4, []⟩
  | .sack blocks => ⟨5, blocks.flatMap fun block => Bytes.be32 block.left ++ Bytes.be32 block.right⟩
  | .timestamp tsval tsecr => ⟨8, Bytes.be32 tsval ++ Bytes.be32 tsecr⟩
  | .other kind data => ⟨kind, data⟩

def kind (o : TcpOption) : UInt8 := o.record.kind

/-- The kinds that have a form of their own. -/
def knownKinds : List UInt8 := [2, 3, 4, 5, 8]

/-- Limits on the values of an option. -/
def Legal : TcpOption → Prop
  | .wscale shift => shift.toNat ≤ tcpWscaleMax
  | .sack blocks =>
    1 ≤ blocks.length ∧ blocks.length ≤ 4 ∧
      ∀ block ∈ blocks, Serial.gt block.right block.left = true
  | .other kind _ => kind ∉ knownKinds
  | _ => True

@[simp] def mss? : TcpOption → Option (BitVec 16)
  | .mss value => some value
  | _ => none

@[simp] def wscale? : TcpOption → Option UInt8
  | .wscale shift => some shift
  | _ => none

@[simp] def sackPermitted? : TcpOption → Option Unit
  | .sackPermitted => some ()
  | _ => none

@[simp] def sack? : TcpOption → Option (List SackBlock)
  | .sack blocks => some blocks
  | _ => none

@[simp] def timestamp? : TcpOption → Option (BitVec 32 × BitVec 32)
  | .timestamp tsval tsecr => some (tsval, tsecr)
  | _ => none

end TcpOption

/-- Legal options, none of the known ones twice. -/
structure WellFormed (opts : List TcpOption) : Prop where
  legal : ∀ o ∈ opts, o.Legal
  once : ((opts.map TcpOption.kind).filter (· ∈ TcpOption.knownKinds)).Nodup

/-- What a header with these options announces.  A maximum segment size that is too small counts as
absent, SACK-permitted counts on SYN segments and SACK blocks on acknowledgements without SYN. -/
def announced (syn ack : Bool) (opts : List TcpOption) : OptionsRx where
  mss := ((opts.findSome? TcpOption.mss?).filter (tcpMinMss ≤ ·.toNat)).getD
    (BitVec.ofNat 16 tcpDefaultMss)
  wscale := (opts.findSome? TcpOption.wscale?).getD 0
  wscalePresent := (opts.findSome? TcpOption.wscale?).isSome
  sackPermittedPresent := syn && (opts.findSome? TcpOption.sackPermitted?).isSome
  sacks := if !syn && ack then (opts.findSome? TcpOption.sack?).getD [] else []
  timestampPresent := (opts.findSome? TcpOption.timestamp?).isSome
  tsval := ((opts.findSome? TcpOption.timestamp?).map Prod.fst).getD 0
  tsecr := ((opts.findSome? TcpOption.timestamp?).map Prod.snd).getD 0

/-- The bytes stand for these options. -/
def Encodes (bytes : List UInt8) (opts : List TcpOption) : Prop :=
  Tlv.Reads 0 1 bytes (opts.map TcpOption.record)

/-- The state of the parser behind these options. -/
def parsed (syn ack : Bool) (opts : List TcpOption) : ParseState where
  rx := announced syn ack opts
  mssPresent := (opts.findSome? TcpOption.mss?).isSome
  sackPermittedSeen := (opts.findSome? TcpOption.sackPermitted?).isSome
  sackSeen := (opts.findSome? TcpOption.sack?).isSome

variable {syn ack : Bool} {opts done : List TcpOption} {o : TcpOption} {st : ParseState}

/-- The loop of the parser is the loop over a tag-length-value stream. -/
theorem parseLoop_eq_scan (rounds : Nat) (bytes : List UInt8) (st : ParseState) :
    tcpOptionsParseLoop syn ack rounds bytes st =
      Tlv.scan 0 1 (fun r st => parseOption syn ack r.kind r.data st) rounds bytes st := by
  induction rounds generalizing bytes st with
  | zero => cases bytes <;> rfl
  | succ left ih =>
    match bytes with
    | [] => rfl
    | [kind] => simp only [tcpOptionsParseLoop, Tlv.scan, ih]
    | kind :: len :: rest =>
      simp only [tcpOptionsParseLoop, Tlv.scan, ih]
      cases parseOption syn ack kind (rest.take (len.toNat - 2)) st <;> rfl

section Step

variable {data : List UInt8}

theorem parse_mss_iff :
    parseOption syn ack 2 data (parsed syn ack done) = some st ↔
      ∃ value, data = Bytes.be16 value ∧ done.findSome? TcpOption.mss? = none ∧
        st = parsed syn ack (done ++ [.mss value]) := by
  have hnext : ∀ a b, done.findSome? TcpOption.mss? = none →
      parseOption syn ack 2 [a, b] (parsed syn ack done) =
        some (parsed syn ack (done ++ [.mss (Bytes.word16 a b)])) := by
    intro a b habsent
    simp only [parseOption, parsed, announced, habsent, List.findSome?_append]
    simp [Option.filter]
    split_ifs <;> rfl
  constructor
  · intro h
    rcases data with _ | ⟨a, _ | ⟨b, _ | ⟨c, rest⟩⟩⟩
    rotate_left 2
    · cases habsent : done.findSome? TcpOption.mss? with
      | some value => simp [parseOption, parsed, habsent] at h
      | none =>
        rw [hnext a b habsent, some_inj] at h
        exact ⟨Bytes.word16 a b, (Bytes.be16_word16 a b).symm, rfl, h.symm⟩
    all_goals simp [parseOption] at h
  · rintro ⟨value, rfl, habsent, rfl⟩
    rw [Bytes.be16, hnext _ _ habsent, Bytes.word16_be16]

theorem parse_wscale_iff :
    parseOption syn ack 3 data (parsed syn ack done) = some st ↔
      ∃ shift, data = [shift] ∧ shift.toNat ≤ tcpWscaleMax ∧
        done.findSome? TcpOption.wscale? = none ∧
        st = parsed syn ack (done ++ [.wscale shift]) := by
  constructor
  · intro h
    match data with
    | [] | _ :: _ :: _ => simp [parseOption] at h
    | [shift] =>
      cases habsent : done.findSome? TcpOption.wscale? with
      | some old => simp [parseOption, parsed, announced, habsent] at h
      | none =>
        simp [parseOption, parsed, announced, habsent] at h
        refine ⟨shift, rfl, h.1, rfl, ?_⟩
        simp [parsed, announced, habsent, List.findSome?_append, h.2.symm]
  · rintro ⟨shift, rfl, hshift, habsent, rfl⟩
    simp [parseOption, parsed, announced, habsent, List.findSome?_append, Nat.not_lt.mpr hshift]

theorem parse_sackPermitted_iff :
    parseOption syn ack 4 data (parsed syn ack done) = some st ↔
      data = [] ∧ done.findSome? TcpOption.sackPermitted? = none ∧
        st = parsed syn ack (done ++ [.sackPermitted]) := by
  constructor
  · intro h
    cases habsent : done.findSome? TcpOption.sackPermitted? with
    | some old => simp [parseOption, parsed, habsent] at h
    | none =>
      simp [parseOption, parsed, announced, habsent] at h
      refine ⟨h.1, rfl, ?_⟩
      simp [parsed, announced, habsent, List.findSome?_append, h.2.symm]
  · rintro ⟨rfl, habsent, rfl⟩
    simp [parseOption, parsed, announced, habsent, List.findSome?_append]

/-- Blocks in order come back as they were. -/
theorem parseSackBlocks_flatMap {blocks : List SackBlock}
    (h : ∀ block ∈ blocks, Serial.gt block.right block.left = true) :
    parseSackBlocks (blocks.flatMap fun block =>
      Bytes.be32 block.left ++ Bytes.be32 block.right) = some blocks := by
  induction blocks with
  | nil => rfl
  | cons block rest ih =>
    have hrest := ih fun other hother => h other (mem_cons_of_mem _ hother)
    simp only [flatMap_cons, Bytes.be32, cons_append, nil_append, parseSackBlocks,
      Bytes.word32_be32]
    simp only [h block mem_cons_self, Bool.not_true, Bool.false_eq_true, if_false]
    simp only [Bytes.be32, cons_append, nil_append] at hrest
    rw [hrest]
    rfl

/-- The loop over the blocks reads whole blocks that are all in order. -/
theorem parseSackBlocks_eq_some : ∀ {data : List UInt8} {blocks : List SackBlock},
    data.length % 8 = 0 → parseSackBlocks data = some blocks →
    (data = blocks.flatMap fun block => Bytes.be32 block.left ++ Bytes.be32 block.right) ∧
      ∀ block ∈ blocks, Serial.gt block.right block.left = true
  | a :: b :: c :: d :: e :: f :: g :: i :: rest, blocks, hwhole, h => by
      simp only [parseSackBlocks] at h
      by_cases hbad : (!Serial.gt (Bytes.word32 e f g i) (Bytes.word32 a b c d)) = true
      · rw [if_pos hbad] at h
        cases h
      · rw [if_neg hbad] at h
        obtain ⟨others, hothers, rfl⟩ := map_eq_some_iff.mp h
        have hrest : rest.length % 8 = 0 := by
          simp only [length_cons] at hwhole
          omega
        obtain ⟨hdata, horder⟩ := parseSackBlocks_eq_some hrest hothers
        constructor
        · rw [flatMap_cons, Bytes.be32_word32, Bytes.be32_word32, ← hdata]
          rfl
        · intro other hother
          rcases mem_cons.mp hother with rfl | hother
          · simpa using hbad
          · exact horder other hother
  | [], blocks, _, h => by
      obtain rfl := some_inj.mp h
      exact ⟨rfl, fun _ hmem => absurd hmem not_mem_nil⟩
  | [_], _, hwhole, _ | [_, _], _, hwhole, _ | [_, _, _], _, hwhole, _
  | [_, _, _, _], _, hwhole, _ | [_, _, _, _, _], _, hwhole, _
  | [_, _, _, _, _, _], _, hwhole, _ | [_, _, _, _, _, _, _], _, hwhole, _ => by
      simp at hwhole

theorem parse_sack_iff :
    parseOption syn ack 5 data (parsed syn ack done) = some st ↔
      ∃ blocks : List SackBlock,
        data = (blocks.flatMap fun block => Bytes.be32 block.left ++ Bytes.be32 block.right) ∧
        TcpOption.Legal (.sack blocks) ∧ done.findSome? TcpOption.sack? = none ∧
        st = parsed syn ack (done ++ [.sack blocks]) := by
  have hlength : ∀ blocks : List SackBlock, (blocks.flatMap fun block =>
      Bytes.be32 block.left ++ Bytes.be32 block.right).length = blocks.length * 8 := by
    intro blocks
    simp [length_flatMap]
  cases habsent : done.findSome? TcpOption.sack? with
  | some old => simp [parseOption, parsed, habsent]
  | none =>
    have hsteps : parseOption syn ack 5 data (parsed syn ack done) =
        if data.length < 8 ∨ data.length % 8 ≠ 0 then none
        else if data.length / 8 > 4 then none
        else (parseSackBlocks data).map fun blocks =>
          parsed syn ack (done ++ [.sack blocks]) := by
      simp only [parseOption]
      cases parseSackBlocks data <;>
        simp [parsed, announced, habsent, List.findSome?_append, tcpSackMaxBlocks]
    constructor
    · intro h
      rw [hsteps] at h
      split_ifs at h with hshape hcount
      obtain ⟨blocks, hblocks, rfl⟩ := map_eq_some_iff.mp h
      obtain ⟨hdata, horder⟩ := parseSackBlocks_eq_some (by omega) hblocks
      have hlen := hlength blocks
      rw [← hdata] at hlen
      exact ⟨blocks, hdata, ⟨by omega, by omega, horder⟩, rfl, rfl⟩
    · rintro ⟨blocks, rfl, ⟨hpos, hfew, horder⟩, -, rfl⟩
      rw [hsteps, hlength, if_neg (by omega), if_neg (by omega), parseSackBlocks_flatMap horder]
      rfl

theorem parse_timestamp_iff :
    parseOption syn ack 8 data (parsed syn ack done) = some st ↔
      ∃ tsval tsecr, data = Bytes.be32 tsval ++ Bytes.be32 tsecr ∧
        done.findSome? TcpOption.timestamp? = none ∧
        st = parsed syn ack (done ++ [.timestamp tsval tsecr]) := by
  have hnext : ∀ a b c d e f g h, done.findSome? TcpOption.timestamp? = none →
      parseOption syn ack 8 [a, b, c, d, e, f, g, h] (parsed syn ack done) =
        some (parsed syn ack
          (done ++ [.timestamp (Bytes.word32 a b c d) (Bytes.word32 e f g h)])) := by
    intro a b c d e f g h habsent
    simp [parseOption, parsed, announced, habsent, List.findSome?_append]
  constructor
  · intro hparse
    rcases data with _ | ⟨a, _ | ⟨b, _ | ⟨c, _ | ⟨d, _ | ⟨e, _ | ⟨f, _ | ⟨g, _ | ⟨h, _ | ⟨i, rest⟩⟩⟩⟩⟩⟩⟩⟩⟩
    rotate_left 8
    · cases habsent : done.findSome? TcpOption.timestamp? with
      | some old => simp [parseOption, parsed, announced, habsent] at hparse
      | none =>
        rw [hnext a b c d e f g h habsent, some_inj] at hparse
        refine ⟨Bytes.word32 a b c d, Bytes.word32 e f g h, ?_, rfl, hparse.symm⟩
        rw [Bytes.be32_word32, Bytes.be32_word32]
        rfl
    all_goals simp [parseOption] at hparse
  · rintro ⟨tsval, tsecr, rfl, habsent, rfl⟩
    simp only [Bytes.be32, cons_append, nil_append]
    rw [hnext _ _ _ _ _ _ _ _ habsent, Bytes.word32_be32, Bytes.word32_be32]

theorem parse_other {kind : UInt8} (h : kind ∉ TcpOption.knownKinds) :
    parseOption syn ack kind data (parsed syn ack done) =
      some (parsed syn ack (done ++ [.other kind data])) := by
  simp only [TcpOption.knownKinds, mem_cons, not_mem_nil, or_false, not_or] at h
  simp [parseOption, h, parsed, announced, List.findSome?_append]

/-- An option of this kind stands among legal ones exactly when the selector of the kind finds
one. -/
theorem findSome_none_iff {α : Type*} {sel : TcpOption → Option α} {k : UInt8}
    (hsel : ∀ o : TcpOption, o.Legal → (sel o = none ↔ o.kind ≠ k)) (hdone : ∀ o ∈ done, o.Legal) :
    done.findSome? sel = none ↔ k ∉ done.map TcpOption.kind := by
  rw [List.findSome?_eq_none_iff]
  constructor
  · intro h hmem
    obtain ⟨o, ho, hkind⟩ := mem_map.mp hmem
    exact (hsel o (hdone o ho)).mp (h o ho) hkind
  · intro h o ho
    refine (hsel o (hdone o ho)).mpr fun hkind => h ?_
    exact hkind ▸ mem_map_of_mem ho

/-- Each selector finds the options of its kind. -/
theorem selectors_eq_none_iff (h : o.Legal) :
    (o.mss? = none ↔ o.kind ≠ 2) ∧ (o.wscale? = none ↔ o.kind ≠ 3) ∧
      (o.sackPermitted? = none ↔ o.kind ≠ 4) ∧ (o.sack? = none ↔ o.kind ≠ 5) ∧
      (o.timestamp? = none ↔ o.kind ≠ 8) := by
  cases o with
  | other kind data =>
    simp only [TcpOption.Legal, TcpOption.knownKinds, mem_cons, not_mem_nil, or_false, not_or] at h
    simp [TcpOption.kind, TcpOption.record, h]
  | _ => simp [TcpOption.kind, TcpOption.record]

/-- One case of the parser's switch: the option has a legal reading, and is new if its kind is
known. -/
theorem parseOption_iff (hdone : ∀ o ∈ done, o.Legal) (r : Tlv.Record) :
    parseOption syn ack r.kind r.data (parsed syn ack done) = some st ↔
      ∃ o : TcpOption, o.record = r ∧ o.Legal ∧
        (o.kind ∈ TcpOption.knownKinds → o.kind ∉ done.map TcpOption.kind) ∧
        st = parsed syn ack (done ++ [o]) := by
  have hmss := findSome_none_iff (fun _ h => (selectors_eq_none_iff h).1) hdone
  have hwscale := findSome_none_iff (fun _ h => (selectors_eq_none_iff h).2.1) hdone
  have hpermitted := findSome_none_iff (fun _ h => (selectors_eq_none_iff h).2.2.1) hdone
  have hsack := findSome_none_iff (fun _ h => (selectors_eq_none_iff h).2.2.2.1) hdone
  have htimestamp := findSome_none_iff (fun _ h => (selectors_eq_none_iff h).2.2.2.2) hdone
  constructor
  · intro h
    obtain ⟨kind, data⟩ := r
    by_cases hknown : kind ∈ TcpOption.knownKinds
    · simp only [TcpOption.knownKinds, mem_cons, not_mem_nil, or_false] at hknown
      rcases hknown with rfl | rfl | rfl | rfl | rfl
      · obtain ⟨value, rfl, habsent, rfl⟩ := parse_mss_iff.mp h
        exact ⟨.mss value, rfl, trivial, fun _ => hmss.mp habsent, rfl⟩
      · obtain ⟨shift, rfl, hshift, habsent, rfl⟩ := parse_wscale_iff.mp h
        exact ⟨.wscale shift, rfl, hshift, fun _ => hwscale.mp habsent, rfl⟩
      · obtain ⟨rfl, habsent, rfl⟩ := parse_sackPermitted_iff.mp h
        exact ⟨.sackPermitted, rfl, trivial, fun _ => hpermitted.mp habsent, rfl⟩
      · obtain ⟨blocks, rfl, hlegal, habsent, rfl⟩ := parse_sack_iff.mp h
        exact ⟨.sack blocks, rfl, hlegal, fun _ => hsack.mp habsent, rfl⟩
      · obtain ⟨tsval, tsecr, rfl, habsent, rfl⟩ := parse_timestamp_iff.mp h
        exact ⟨.timestamp tsval tsecr, rfl, trivial, fun _ => htimestamp.mp habsent, rfl⟩
    · rw [parse_other hknown, some_inj] at h
      exact ⟨.other kind data, rfl, hknown, fun h => absurd h hknown, h.symm⟩
  · rintro ⟨o, rfl, hlegal, hfresh, rfl⟩
    cases o with
    | mss value =>
      have hknown : (2 : UInt8) ∈ TcpOption.knownKinds := by decide
      exact parse_mss_iff.mpr ⟨value, rfl, hmss.mpr (hfresh hknown), rfl⟩
    | wscale shift =>
      have hknown : (3 : UInt8) ∈ TcpOption.knownKinds := by decide
      exact parse_wscale_iff.mpr ⟨shift, rfl, hlegal, hwscale.mpr (hfresh hknown), rfl⟩
    | sackPermitted =>
      have hknown : (4 : UInt8) ∈ TcpOption.knownKinds := by decide
      exact parse_sackPermitted_iff.mpr ⟨rfl, hpermitted.mpr (hfresh hknown), rfl⟩
    | sack blocks =>
      have hknown : (5 : UInt8) ∈ TcpOption.knownKinds := by decide
      exact parse_sack_iff.mpr ⟨blocks, rfl, hlegal, hsack.mpr (hfresh hknown), rfl⟩
    | timestamp tsval tsecr =>
      have hknown : (8 : UInt8) ∈ TcpOption.knownKinds := by decide
      exact parse_timestamp_iff.mpr ⟨tsval, tsecr, rfl, htimestamp.mpr (hfresh hknown), rfl⟩
    | other kind data => exact parse_other hlegal

end Step

section Grammar

/-- Well-formed options stay so without the last ones. -/
theorem WellFormed.of_append {front rest : List TcpOption} (h : WellFormed (front ++ rest)) :
    WellFormed front := by
  constructor
  · intro o ho
    exact h.legal o (mem_append_left _ ho)
  · have honce := h.once
    rw [map_append, filter_append] at honce
    exact honce.of_append_left

/-- One more option. -/
theorem wellFormed_snoc_iff (hdone : WellFormed done) :
    WellFormed (done ++ [o]) ↔
      o.Legal ∧ (o.kind ∈ TcpOption.knownKinds → o.kind ∉ done.map TcpOption.kind) := by
  constructor
  · intro h
    refine ⟨h.legal o (by simp), fun hknown hmem => ?_⟩
    have honce := h.once
    simp only [map_append, filter_append, map_cons, map_nil] at honce
    rw [filter_cons_of_pos (by simpa using hknown), filter_nil] at honce
    have hdisjoint := (nodup_append.mp honce).2.2
    exact hdisjoint o.kind (mem_filter.mpr ⟨hmem, by simpa using hknown⟩) o.kind
      (mem_singleton_self _) rfl
  · rintro ⟨hlegal, hfresh⟩
    constructor
    · intro other hother
      rcases mem_append.mp hother with hother | hother
      · exact hdone.legal other hother
      · exact (mem_singleton.mp hother) ▸ hlegal
    · rw [map_append, filter_append]
      apply hdone.once.append
      · exact (nodup_singleton o.kind).filter _
      · intro kind hkind hkind'
        obtain ⟨hmem, hknown⟩ := mem_filter.mp hkind'
        obtain rfl := mem_singleton.mp hmem
        exact hfresh (by simpa using hknown) (mem_filter.mp hkind).1

/-- The records behind well-formed options are taken exactly when they go on well-formed. -/
theorem parseRecords_iff (hdone : WellFormed done) (records : List Tlv.Record) :
    records.foldlM (fun st r => parseOption syn ack r.kind r.data st) (parsed syn ack done) =
        some st ↔
      ∃ opts, opts.map TcpOption.record = records ∧ WellFormed (done ++ opts) ∧
        st = parsed syn ack (done ++ opts) := by
  induction records generalizing done with
  | nil =>
    constructor
    · intro h
      exact ⟨[], rfl, by simpa using hdone, by simpa using (some_inj.mp h).symm⟩
    · rintro ⟨opts, hrecords, -, rfl⟩
      obtain rfl := map_eq_nil_iff.mp hrecords
      simp
  | cons r records ih =>
    rw [foldlM_cons]
    constructor
    · intro h
      obtain ⟨next, hparse, hfold⟩ := bind_eq_some_iff.mp h
      obtain ⟨o, rfl, hlegal, hfresh, rfl⟩ := (parseOption_iff hdone.legal r).mp hparse
      have hsnoc := (wellFormed_snoc_iff hdone).mpr ⟨hlegal, hfresh⟩
      obtain ⟨opts, rfl, hopts, rfl⟩ := (ih hsnoc).mp hfold
      rw [append_assoc] at hopts ⊢
      exact ⟨o :: opts, rfl, hopts, rfl⟩
    · rintro ⟨opts, hrecords, hopts, rfl⟩
      obtain ⟨o, rest, rfl, rfl, hrest⟩ := map_eq_cons_iff.mp hrecords
      have hsplit : done ++ o :: rest = (done ++ [o]) ++ rest := by simp
      rw [hsplit] at hopts
      have hsnoc := hopts.of_append
      obtain ⟨hlegal, hfresh⟩ := (wellFormed_snoc_iff hdone).mp hsnoc
      apply bind_eq_some_iff.mpr
      exact ⟨_, (parseOption_iff hdone.legal _).mpr ⟨o, rfl, hlegal, hfresh, rfl⟩,
        (ih hsnoc).mpr ⟨rest, hrest, hopts, by rw [hsplit]⟩⟩

/-- Behind a whole fixed header, the parser returns what well-formed options announce. -/
theorem parse_long_iff {dataOff : BitVec 8} {bytes : List UInt8} {rx : OptionsRx}
    (hlong : 20 ≤ (dataOff >>> 4).toNat * 4) :
    tcpOptionsParse dataOff syn ack bytes = some rx ↔
      ∃ opts, Encodes (bytes.take ((dataOff >>> 4).toNat * 4 - 20)) opts ∧ WellFormed opts ∧
        rx = announced syn ack opts := by
  have hempty : WellFormed [] := ⟨fun _ h => absurd h not_mem_nil, nodup_nil⟩
  have hstart : ({} : ParseState) = parsed syn ack [] := by
    cases syn <;> cases ack <;> rfl
  simp only [tcpOptionsParse, if_neg (Nat.not_lt.mpr hlong)]
  rw [map_eq_some_iff, hstart]
  simp only [parseLoop_eq_scan, Tlv.scan_iff (by decide : (0 : UInt8) ≠ 1) _ le_rfl,
    parseRecords_iff hempty, nil_append]
  constructor
  · rintro ⟨_, ⟨_, hreads, opts, rfl, hopts, rfl⟩, rfl⟩
    exact ⟨opts, hreads, hopts, rfl⟩
  · rintro ⟨opts, hreads, hopts, rfl⟩
    exact ⟨_, ⟨_, hreads, opts, rfl, hopts, rfl⟩, rfl⟩

/-- A packet whose data offset counts exactly the bytes of well-formed options is parsed to what
they announce. -/
theorem parse_of_encodes {dataOff : BitVec 8} {bytes : List UInt8}
    (hoff : dataOff.toNat / 16 * 4 = 20 + bytes.length) (h : Encodes bytes opts)
    (hopts : WellFormed opts) (payload : List UInt8) :
    tcpOptionsParse dataOff syn ack (bytes ++ payload) = some (announced syn ack opts) := by
  have hshift : (dataOff >>> 4).toNat * 4 = 20 + bytes.length := by
    rw [BitVec.toNat_ushiftRight, Nat.shiftRight_eq_div_pow]
    exact hoff
  refine (parse_long_iff (by omega)).mpr ⟨opts, ?_, hopts, rfl⟩
  rw [hshift, Nat.add_sub_cancel_left, take_left]
  exact h

/-- `tcp_options_parse` accepts exactly the headers whose option bytes, up to the first
end-of-list byte or the end of the header, stand for well-formed options, and returns what these
announce. -/
theorem options_parse_iff (dataOff : BitVec 8) (syn ack : Bool) (bytes : List UInt8)
    (rx : OptionsRx) :
    tcpOptionsParse dataOff syn ack bytes = some rx ↔
      20 ≤ (dataOff >>> 4).toNat * 4 ∧
        ∃ opts, Encodes (bytes.take ((dataOff >>> 4).toNat * 4 - 20)) opts ∧ WellFormed opts ∧
          rx = announced syn ack opts := by
  by_cases hlong : 20 ≤ (dataOff >>> 4).toNat * 4
  · rw [parse_long_iff hlong, and_iff_right hlong]
  · simp only [tcpOptionsParse, if_pos (Nat.not_le.mp hlong), hlong, false_and, reduceCtorEq]

end Grammar

end SnowTG.Tcp.Options
