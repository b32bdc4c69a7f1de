import Filestick.Lib.Crc
import Filestick.Rtl.Fcs

/-!
# The frame check sequence as a check register

The table of `fcstab.hex` is that of a check register of 16 bits, so the module takes in the bits of
a frame in the order in which they are sent (`ofBytes_eq_run`).

* `fcsGood_iff`: the register ends at `FCSGOOD` exactly when the last two bytes are the complement
  of the register before them, low byte first.
* `burst_detected`: a frame that passes the check does not when bits change within a window of 16.
-/

namespace Filestick.Fcs

open Crc Hdlc

/-- The generator polynomial, lowest bit first. -/
def generator : BitVec 16 := 0x8408#16

theorem generator_top : generator.getLsbD (16 - 1) = true := rfl

/-- **The table**: word `x` is what eight zeros make of a register that holds `x`. -/
theorem fcstab_eq_run (x : BitVec 8) :
    fcstab.getD x.toNat 0 = run generator (x.setWidth 16) (List.replicate 8 false) := by
  revert x
  decide +kernel

theorem update_eq_run (fcsval : BitVec 16) (data : BitVec 8) :
    update fcsval data = run generator fcsval (byteBits data) := by
  rw [update, fcstab_eq_run, run_byteBits (by decide)]

theorem foldl_update_eq_run (fcsval : BitVec 16) (bs : List (BitVec 8)) :
    bs.foldl update fcsval = run generator fcsval (bytesBits bs) := by
  induction bs generalizing fcsval with
  | nil => rfl
  | cons b bs ih => rw [List.foldl_cons, ih, update_eq_run, bytesBits_cons, run_append]

/-- The register takes in the bits of a frame in the order in which they are sent. -/
theorem ofBytes_eq_run (bs : List (BitVec 8)) :
    ofBytes bs = run generator fcsInit (bytesBits bs) := foldl_update_eq_run fcsInit bs

/-! ### The check sequence -/

/-- `FCSGOOD` is what 16 zeros make of a register of 1s. -/
theorem fcsGood_eq_run :
    fcsGood = run generator (BitVec.allOnes 16) (List.replicate 16 false) := by decide

theorem preload_pair (t₀ t₁ : BitVec 8) : preload 16 (bytesBits [t₀, t₁]) = t₁ ++ t₀ := by
  apply BitVec.eq_of_getLsbD_eq
  intro i hi
  rw [getLsbD_preload, BitVec.getLsbD_append, List.getD_eq_getElem?_getD,
    getElem?_bytesBits (by simpa using hi)]
  rcases Nat.lt_or_ge i 8 with h | h
  · have h0 : i / 8 = 0 := by omega
    have h1 : i % 8 = i := by omega
    simp [h0, h1, h, hi]
  · have h0 : i / 8 = 1 := by omega
    have h1 : i % 8 = i - 8 := by omega
    have h2 : ¬i < 8 := by omega
    simp [h0, h1, h2, hi]

theorem append_inj {t₀ t₁ u₀ u₁ : BitVec 8} : t₁ ++ t₀ = u₁ ++ u₀ ↔ t₀ = u₀ ∧ t₁ = u₁ := by
  constructor
  · intro h
    have hlow := congrArg (BitVec.extractLsb' 0 8) h
    have hhigh := congrArg (BitVec.extractLsb' 8 8) h
    simp only [BitVec.extractLsb'_append_eq_right, BitVec.extractLsb'_append_eq_left] at hlow hhigh
    exact ⟨hlow, hhigh⟩
  · rintro ⟨rfl, rfl⟩
    rfl

/-- Two bytes fill a register with 1s when they are the complement of it. -/
theorem xor_append_eq_allOnes_iff (r : BitVec 16) (t₀ t₁ : BitVec 8) :
    r ^^^ (t₁ ++ t₀) = BitVec.allOnes 16 ↔
      t₀ = ~~~(r.extractLsb' 0 8) ∧ t₁ = ~~~(r.extractLsb' 8 8) := by
  have hones : BitVec.allOnes 16 = r ^^^ ~~~r := by
    apply BitVec.eq_of_getLsbD_eq
    intro i hi
    rw [BitVec.getLsbD_allOnes, BitVec.getLsbD_xor, BitVec.getLsbD_not, decide_eq_true hi,
      Bool.true_and, Bool.xor_not_self]
  have hsplit : r = r.extractLsb' 8 8 ++ r.extractLsb' 0 8 := by
    apply BitVec.eq_of_getLsbD_eq
    intro i hi
    rw [BitVec.getLsbD_append, BitVec.getLsbD_extractLsb', BitVec.getLsbD_extractLsb']
    rcases Nat.lt_or_ge i 8 with h | h
    · simp [h]
    · have h0 : ¬i < 8 := by omega
      have h1 : i - 8 < 8 := by omega
      have h2 : 8 + (i - 8) = i := by omega
      simp [h0, h1, h2]
  have hnot : ~~~r = ~~~(r.extractLsb' 8 8) ++ ~~~(r.extractLsb' 0 8) := by
    conv_lhs => rw [hsplit]
    exact BitVec.not_append
  rw [hones, BitVec.xor_right_inj, hnot, append_inj]

/-- **The receiver accepts what the transmitter appends**, and nothing else: the register ends at
`FCSGOOD` after a message and two bytes exactly when these are the complement of the low and of the
high byte of the check sequence of the message. -/
theorem fcsGood_iff (m : List (BitVec 8)) (t₀ t₁ : BitVec 8) :
    ofBytes (m ++ [t₀, t₁]) = fcsGood ↔
      t₀ = ~~~((ofBytes m).extractLsb' 0 8) ∧ t₁ = ~~~((ofBytes m).extractLsb' 8 8) := by
  have hrun : ofBytes (m ++ [t₀, t₁]) = run generator (ofBytes m) (bytesBits [t₀, t₁]) := by
    rw [ofBytes, List.foldl_append]
    exact foldl_update_eq_run _ _
  rw [hrun, fcsGood_eq_run, run_eq_iff generator_top (by rw [length_bytesBits]; rfl), preload_pair,
    xor_append_eq_allOnes_iff]

/-! ### Bursts -/

theorem bytesBits_injective {f g : List (BitVec 8)} (h : bytesBits f = bytesBits g) : f = g := by
  induction f generalizing g with
  | nil =>
    cases g with
    | nil => rfl
    | cons b g => exact absurd (congrArg List.length h) (by simp; omega)
  | cons a f ih =>
    cases g with
    | nil => exact absurd (congrArg List.length h) (by simp)
    | cons b g =>
      rw [bytesBits_cons, bytesBits_cons] at h
      obtain ⟨hbyte, hrest⟩ := List.append_inj h (by rw [length_byteBits, length_byteBits])
      have hab : a = b := by
        rw [← BitVec.setWidth_eq a, ← BitVec.setWidth_eq b, ← preload_byteBits, hbyte,
          preload_byteBits]
      rw [hab, ih hrest]

/-- **Bursts are detected**: a frame that passes the check no longer does when some of its bits
change, all of them within 16 consecutive ones. -/
theorem burst_detected {f g : List (BitVec 8)} (hlen : g.length = f.length)
    (hf : ofBytes f = fcsGood) (hne : g ≠ f) (k : ℕ)
    (hburst : ∀ i, i < k ∨ k + 16 ≤ i → (bytesBits g)[i]? = (bytesBits f)[i]?) :
    ofBytes g ≠ fcsGood := by
  intro hg
  have hrun : run generator fcsInit (bytesBits f) = run generator fcsInit (bytesBits g) := by
    rw [← ofBytes_eq_run, ← ofBytes_eq_run, hf, hg]
  have hbits : (bytesBits g).length = (bytesBits f).length := by
    rw [length_bytesBits, length_bytesBits, hlen]
  exact hne (bytesBits_injective (eq_of_burst generator_top hbits hburst hrun)).symm

/-- An acknowledgement in which 16 bits over three bytes are inverted. -/
theorem ack_burst_detected :
    ofBytes [0xB2#8, 0xFF#8, 0x0E#8, 0x00#8, 0xC7#8, 0xCA#8] ≠ fcsGood := by
  refine burst_detected (f := [0x42#8, 0x00#8, 0x01#8, 0x00#8, 0xC7#8, 0xCA#8]) rfl (by decide)
    (by decide) 4 fun i hi => ?_
  have hbits : ∀ i < 48, i < 4 ∨ 4 + 16 ≤ i →
      (bytesBits [0xB2#8, 0xFF#8, 0x0E#8, 0x00#8, 0xC7#8, 0xCA#8])[i]?
        = (bytesBits [0x42#8, 0x00#8, 0x01#8, 0x00#8, 0xC7#8, 0xCA#8])[i]? := by decide
  rcases Nat.lt_or_ge i 48 with h | h
  · exact hbits i h hi
  · rw [List.getElem?_eq_none (by simpa using h), List.getElem?_eq_none (by simpa using h)]

end Filestick.Fcs
