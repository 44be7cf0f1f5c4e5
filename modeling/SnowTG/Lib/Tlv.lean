import Mathlib

/-!
# Tag-length-value streams

A stream of records, each a kind, the length of the whole record and its data.
One byte stands alone as padding, another ends the stream before the bytes run
out.  `Reads` is the grammar; `scan` is the loop that reads a stream and hands
every record to a consumer that may refuse it.  The loop succeeds exactly on
the streams of the grammar whose records the consumer takes one after another.
-/

namespace SnowTG.Lib.Tlv

open List

/-- A record without its length. -/
structure Record where
  kind : UInt8
  data : List UInt8
  deriving DecidableEq, Repr

/-- The length byte of a record: kind and length count. -/
def Record.len (r : Record) : UInt8 := UInt8.ofNat (r.data.length + 2)

/-- The bytes stand for these records. -/
inductive Reads (stop pad : UInt8) : List UInt8 → List Record → Prop
  | empty : Reads stop pad [] []
  | stop (rest : List UInt8) : Reads stop pad (stop :: rest) []
  | pad {rest : List UInt8} {records : List Record} :
      Reads stop pad rest records → Reads stop pad (pad :: rest) records
  | record {rest : List UInt8} {records : List Record} (r : Record) (hstop : r.kind ≠ stop)
      (hpad : r.kind ≠ pad) (hfits : r.data.length + 2 < 256) :
      Reads stop pad rest records →
        Reads stop pad (r.kind :: r.len :: (r.data ++ rest)) (r :: records)

/-- The reading loop; the number bounds its rounds. -/
def scan {σ : Type*} (stop pad : UInt8) (take : Record → σ → Option σ) :
    Nat → List UInt8 → σ → Option σ
  | _, [], st => some st
  | 0, _ :: _, _ => none
  | left + 1, kind :: opt, st =>
    if kind = stop then some st
    else if kind = pad then scan stop pad take left opt st
    else
      match opt with
      | [] => none
      | len :: rest =>
        if len.toNat < 2 || len.toNat > rest.length + 2 then none
        else
          match take ⟨kind, rest.take (len.toNat - 2)⟩ st with
          | none => none
          | some st => scan stop pad take left (rest.drop (len.toNat - 2)) st

variable {stop pad kind len : UInt8} {rest bytes : List UInt8} {records : List Record}

theorem reads_nil_iff : Reads stop pad [] records ↔ records = [] := by
  constructor
  · rintro ⟨⟩
    rfl
  · rintro rfl
    exact .empty

theorem reads_stop_iff (hne : stop ≠ pad) :
    Reads stop pad (stop :: rest) records ↔ records = [] := by
  constructor
  · intro h
    cases h with
    | stop => rfl
    | pad => exact absurd rfl hne
    | record r hstop => exact absurd rfl hstop
  · rintro rfl
    exact .stop rest

theorem reads_pad_iff (hne : stop ≠ pad) :
    Reads stop pad (pad :: rest) records ↔ Reads stop pad rest records := by
  constructor
  · intro h
    cases h with
    | stop => exact absurd rfl hne
    | pad h => exact h
    | record r _ hpad => exact absurd rfl hpad
  · exact .pad

theorem Record.toNat_len (r : Record) (h : r.data.length + 2 < 256) :
    r.len.toNat = r.data.length + 2 := by
  rw [Record.len, UInt8.toNat_ofNat']
  exact Nat.mod_eq_of_lt h

/-- A kind byte alone is not a record. -/
theorem not_reads_single (hstop : kind ≠ stop) (hpad : kind ≠ pad) :
    ¬ Reads stop pad [kind] records := by
  intro h
  cases h with
  | stop => exact hstop rfl
  | pad => exact hpad rfl

/-- A record takes as many bytes as its length says. -/
theorem reads_record_iff (hstop : kind ≠ stop) (hpad : kind ≠ pad) :
    Reads stop pad (kind :: len :: rest) records ↔
      (2 ≤ len.toNat ∧ len.toNat ≤ rest.length + 2) ∧
        ∃ others, records = ⟨kind, rest.take (len.toNat - 2)⟩ :: others ∧
          Reads stop pad (rest.drop (len.toNat - 2)) others := by
  constructor
  · intro h
    cases h with
    | stop => exact absurd rfl hstop
    | pad => exact absurd rfl hpad
    | @record tail others r _ _ hfits hrest =>
      have hlen := r.toNat_len hfits
      have hdata : r.len.toNat - 2 = r.data.length := by omega
      refine ⟨?_, others, ?_, ?_⟩
      · rw [length_append]
        omega
      · rw [hdata, take_left]
      · rwa [hdata, drop_left]
  · rintro ⟨⟨hlow, hhigh⟩, others, rfl, hrest⟩
    have hlong : len.toNat < 256 := len.toBitVec.isLt
    have hdata : (rest.take (len.toNat - 2)).length + 2 = len.toNat := by
      rw [length_take]
      omega
    have hread := Reads.record ⟨kind, rest.take (len.toNat - 2)⟩ hstop hpad
      (hdata.trans_lt hlong) hrest
    have hlen : Record.len ⟨kind, rest.take (len.toNat - 2)⟩ = len := by
      rw [Record.len, hdata, UInt8.ofNat_toNat]
    rwa [hlen, take_append_drop] at hread

section Scan

variable {σ : Type*} {take : Record → σ → Option σ}

/-- A stream that starts with a record is taken when that record is, and then the rest. -/
theorem fold_record_iff (hstop : kind ≠ stop) (hpad : kind ≠ pad) (st st' : σ) :
    (∃ records, Reads stop pad (kind :: len :: rest) records ∧
      records.foldlM (fun st r => take r st) st = some st') ↔
      (2 ≤ len.toNat ∧ len.toNat ≤ rest.length + 2) ∧
        ∃ next, take ⟨kind, rest.take (len.toNat - 2)⟩ st = some next ∧
          ∃ others, Reads stop pad (rest.drop (len.toNat - 2)) others ∧
            others.foldlM (fun st r => take r st) next = some st' := by
  simp only [reads_record_iff hstop hpad]
  constructor
  · rintro ⟨_, ⟨hin, others, rfl, hreads⟩, hfold⟩
    rw [foldlM_cons] at hfold
    obtain ⟨next, htake, hfold⟩ := Option.bind_eq_some_iff.mp hfold
    exact ⟨hin, next, htake, others, hreads, hfold⟩
  · rintro ⟨hin, next, htake, others, hreads, hfold⟩
    refine ⟨_, ⟨hin, others, rfl, hreads⟩, ?_⟩
    simp [foldlM_cons, htake, hfold]

/-- The loop succeeds on the streams of the grammar whose records are taken one after another, and
on no others. -/
theorem scan_iff (hne : stop ≠ pad) (rounds : Nat) (hrounds : bytes.length ≤ rounds) (st st' : σ) :
    scan stop pad take rounds bytes st = some st' ↔
      ∃ records, Reads stop pad bytes records ∧
        records.foldlM (fun st r => take r st) st = some st' := by
  induction rounds generalizing bytes st with
  | zero =>
    obtain rfl := length_eq_zero_iff.mp (Nat.le_zero.mp hrounds)
    simp [scan, reads_nil_iff]
  | succ left ih =>
    match bytes with
    | [] => simp [scan, reads_nil_iff]
    | kind :: opt =>
      have hopt : opt.length ≤ left := Nat.le_of_succ_le_succ hrounds
      rw [scan.eq_def]
      by_cases hstop : kind = stop
      · subst hstop
        simp [reads_stop_iff hne]
      by_cases hpad : kind = pad
      · subst hpad
        simp only [if_neg hstop, if_true, reads_pad_iff hne]
        exact ih hopt st
      simp only [if_neg hstop, if_neg hpad]
      cases opt with
      | nil => simp [not_reads_single hstop hpad]
      | cons len rest =>
        have hdrop : (rest.drop (len.toNat - 2)).length ≤ left := by
          rw [length_drop]
          exact (Nat.sub_le _ _).trans (Nat.le_of_succ_le hopt)
        rw [fold_record_iff hstop hpad]
        simp only [← ih hdrop, Bool.or_eq_true, decide_eq_true_eq]
        by_cases hout : len.toNat < 2 ∨ len.toNat > rest.length + 2
        · have hnot : ¬ (2 ≤ len.toNat ∧ len.toNat ≤ rest.length + 2) := by omega
          rw [if_pos hout]
          exact iff_of_false nofun fun h => hnot h.1
        · have hin : 2 ≤ len.toNat ∧ len.toNat ≤ rest.length + 2 := by omega
          rw [if_neg hout]
          cases take ⟨kind, rest.take (len.toNat - 2)⟩ st <;> simp [hin]

end Scan

end SnowTG.Lib.Tlv
