import SnowTG.Tcp.Options

/-!
# Encoders of the options

Each encoder appends whole words to what the fragment holds.  A finished fragment
is a packet whose data offset counts exactly these words.
-/

namespace SnowTG.Tcp.Options

open SnowTG.Lib List

/-- Bytes filled up to whole words, as `tcp_options_append` leaves them. -/
def aligned (data : List UInt8) : List UInt8 :=
  data ++ List.replicate ((4 - data.length % 4) % 4) 0

theorem length_aligned (data : List UInt8) : (aligned data).length = (data.length + 3) / 4 * 4 := by
  rw [aligned, length_append, length_replicate]
  omega

variable {data : List UInt8}

theorem aligned_words (h : data.length % 4 = 0) : aligned data = data := by
  rw [aligned, h]
  exact append_nil data

section Encoders

variable {f : Fragment} {held : List UInt8}

/-- The option area of a fragment starts with `held`, a whole number of words, and is blank behind
it. -/
structure Fragment.Holds (held : List UInt8) (f : Fragment) : Prop where
  words : held.length = f.optLen * 4
  fits : held.length ≤ 40
  area : f.options = Bytes.padded 0 40 held

theorem clear_holds (f : Fragment) : f.clear.Holds [] :=
  ⟨rfl, zero_le, rfl⟩

/-- Appending keeps the flags and adds the bytes and their padding. -/
theorem append_holds (h : f.Holds held) (data : List UInt8)
    (hfit : held.length + data.length ≤ 40) :
    ∃ f', tcpOptionsAppend f data = some f' ∧ f'.Holds (held ++ aligned data) ∧
      f'.syn = f.syn ∧ f'.ack = f.ack := by
  have hwords := h.words
  have hlength : (held ++ aligned data).length = held.length + (data.length + 3) / 4 * 4 := by
    rw [length_append, length_aligned]
  have hroom : ¬ f.optLen * 4 + data.length > tcpMaxOptions * 4 := by
    rw [tcpMaxOptions]
    omega
  refine ⟨_, if_neg hroom, ⟨?_, ?_, ?_⟩, rfl, rfl⟩
  · rw [hlength]
    dsimp only
    omega
  · rw [hlength]
    omega
  · dsimp only
    rw [h.area, ← h.words, Bytes.overwrite_padded hfit, aligned, ← append_assoc,
      Bytes.padded_append_blanks]
    rw [length_append]
    omega

theorem append_if_holds (c : Bool) (h : f.Holds held) (data : List UInt8)
    (hfit : held.length + data.length ≤ 40) :
    ∃ f', (if c then tcpOptionsAppend f data else some f) = some f' ∧
      f'.Holds (held ++ if c then aligned data else []) ∧
      (held ++ if c then aligned data else []).length ≤ held.length + (data.length + 3) / 4 * 4 ∧
      f'.syn = f.syn ∧ f'.ack = f.ack := by
  cases c with
  | true =>
    obtain ⟨f', happend, hholds, hflags⟩ := append_holds h data hfit
    refine ⟨f', happend, hholds, ?_, hflags⟩
    rw [if_pos rfl, length_append, length_aligned]
  | false => exact ⟨f, rfl, by simpa using h, by simp, rfl, rfl⟩

/-- A finished fragment passes `tcp_build_pkt`, and its data offset counts exactly its options. -/
theorem finish_build (h : f.Holds held) (payload : List UInt8) :
    (tcpOptionsFinish f).optLen * 4 ≤ 40 ∧
      (tcpOptionsFinish f).dataOff.toNat / 16 * 4 = 20 + held.length ∧
      tcpBuildPkt (tcpOptionsFinish f) payload = some (held ++ payload) := by
  have hwords := h.words
  have hfits := h.fits
  have hoff : (tcpOptionsFinish f).dataOff.toNat = (5 + f.optLen) * 16 := by
    rw [tcpOptionsFinish, BitVec.toNat_ofNat, Nat.shiftLeft_eq]
    omega
  refine ⟨?_, ?_, ?_⟩
  · show f.optLen * 4 ≤ 40
    omega
  · rw [hoff]
    omega
  · have hgood : ¬ ((tcpOptionsFinish f).optLen > tcpMaxOptions || (tcpOptionsFinish f).dataOff ≠
          BitVec.ofNat 8 ((5 + (tcpOptionsFinish f).optLen) <<< 4)) = true := by
      have hfew : ¬ f.optLen > tcpMaxOptions := by
        rw [tcpMaxOptions]
        omega
      simp [tcpOptionsFinish, hfew]
    rw [tcpBuildPkt, if_neg hgood]
    show some (f.options.take (f.optLen * 4) ++ payload) = _
    rw [h.area, ← hwords, Bytes.take_padded]

end Encoders

end SnowTG.Tcp.Options
