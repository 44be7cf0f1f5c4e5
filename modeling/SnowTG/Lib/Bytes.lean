import Mathlib

/-!
# Words in network byte order

Sixteen- and thirty-two-bit words as bytes, most significant byte first, and
writes into a buffer of a fixed length.
-/

namespace SnowTG.Lib.Bytes

open List

/-- The bytes of a sixteen-bit word. -/
def be16 (v : BitVec 16) : List UInt8 :=
  [⟨v.extractLsb' 8 8⟩, ⟨v.extractLsb' 0 8⟩]

/-- The bytes of a thirty-two-bit word. -/
def be32 (v : BitVec 32) : List UInt8 :=
  [⟨v.extractLsb' 24 8⟩, ⟨v.extractLsb' 16 8⟩, ⟨v.extractLsb' 8 8⟩, ⟨v.extractLsb' 0 8⟩]

/-- The word of two bytes. -/
def word16 (a b : UInt8) : BitVec 16 := a.toBitVec ++ b.toBitVec

/-- The word of four bytes. -/
def word32 (a b c d : UInt8) : BitVec 32 := a.toBitVec ++ b.toBitVec ++ c.toBitVec ++ d.toBitVec

@[simp] theorem length_be32 (v : BitVec 32) : (be32 v).length = 4 := rfl

theorem word16_be16 (v : BitVec 16) : word16 ⟨v.extractLsb' 8 8⟩ ⟨v.extractLsb' 0 8⟩ = v := by
  apply BitVec.eq_of_getLsbD_eq
  intro i hi
  simp only [word16, BitVec.getLsbD_append, BitVec.getLsbD_extractLsb']
  split_ifs with hlow
  · simp [hlow]
  · have hindex : 8 + (i - 8) = i := by omega
    simp [hindex, show i - 8 < 8 by omega]

theorem word32_be32 (v : BitVec 32) :
    word32 ⟨v.extractLsb' 24 8⟩ ⟨v.extractLsb' 16 8⟩ ⟨v.extractLsb' 8 8⟩ ⟨v.extractLsb' 0 8⟩ =
      v := by
  apply BitVec.eq_of_getLsbD_eq
  intro i hi
  simp only [word32, BitVec.getLsbD_append, BitVec.getLsbD_extractLsb']
  split_ifs with hfirst hsecond hthird
  · simp [hfirst]
  · have hindex : 8 + (i - 8) = i := by omega
    simp [hindex, hsecond]
  · have hindex : 16 + (i - 8 - 8) = i := by omega
    simp [hindex, hthird]
  · have hindex : 24 + (i - 8 - 8 - 8) = i := by omega
    simp [hindex, show i - 8 - 8 - 8 < 8 by omega]

theorem be16_word16 (a b : UInt8) : be16 (word16 a b) = [a, b] := by
  rw [be16, word16, BitVec.extractLsb'_append_eq_left, BitVec.extractLsb'_append_eq_right]

/-- A byte of a word, given its bits. -/
theorem extract_byte {v : BitVec 32} (k : Nat) {x : UInt8}
    (h : ∀ i < 8, v.getLsbD (k + i) = x.toBitVec.getLsbD i) :
    (⟨v.extractLsb' k 8⟩ : UInt8) = x := by
  apply UInt8.eq_of_toBitVec_eq
  apply BitVec.eq_of_getLsbD_eq
  intro i hi
  simpa [BitVec.getLsbD_extractLsb', hi] using h i hi

theorem be32_word32 (a b c d : UInt8) : be32 (word32 a b c d) = [a, b, c, d] := by
  rw [be32, extract_byte 24 (x := a), extract_byte 16 (x := b), extract_byte 8 (x := c),
    extract_byte 0 (x := d)]
  all_goals
    intro i hi
    simp only [word32, BitVec.getLsbD_append]
    split_ifs <;> first | omega | (congr 1; omega)

variable {α : Type*} {blank : α} {size : Nat} {held : List α}

/-- Write `data` over the elements from `offset` on. -/
def overwrite (buf : List α) (offset : Nat) (data : List α) : List α :=
  buf.take offset ++ data ++ buf.drop (offset + data.length)

/-- A buffer of `size` elements that starts with `held` and is blank behind it. -/
def padded (blank : α) (size : Nat) (held : List α) : List α :=
  held ++ List.replicate (size - held.length) blank

theorem overwrite_padded {data : List α} (hfit : held.length + data.length ≤ size) :
    overwrite (padded blank size held) held.length data = padded blank size (held ++ data) := by
  rw [overwrite, padded, padded, take_left, drop_append, drop_replicate,
    drop_eq_nil_of_le (by omega), nil_append, length_append]
  congr 2
  omega

/-- Blanks behind what is held may count as held. -/
theorem padded_append_blanks {pad : Nat} (hfit : held.length + pad ≤ size) :
    padded blank size (held ++ List.replicate pad blank) = padded blank size held := by
  rw [padded, padded, append_assoc, replicate_append_replicate, length_append, length_replicate]
  congr 2
  omega

theorem take_padded : (padded blank size held).take held.length = held := by
  rw [padded, take_left]

end SnowTG.Lib.Bytes
