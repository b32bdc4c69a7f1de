import Mathlib.Data.BitVec
import Mathlib.Data.List.Basic

/-!
# Shift registers

A shift register of `w` bits sends its highest bit first and takes a new bit in at its low end.

* `topBits n x`: the bits that `n` clocks send, in order.
* `topBits_succ`, `topBits_add`: what one clock sends, and what `a + b` clocks send.
* `topBits_bytes`: a whole number of bytes is sent byte by byte.
* `shiftIn x bits`: the register after it took in `bits`; `getLsbD_shiftIn` has its bits, and
  `shiftIn_bytes` its bytes when whole bytes were taken in.
* `shiftIn_topBits`: what one register sends and another one takes in.
-/

namespace Filestick.ShiftRegister

variable {w : ℕ}

/-- The `n` highest bits, the highest first. -/
def topBits (n : ℕ) (x : BitVec w) : List Bool := (List.range n).map fun k => x.getMsbD k

/-- The register after it took in `bits`. -/
def shiftIn (x : BitVec w) (bits : List Bool) : BitVec w :=
  bits.foldl (fun x b => x <<< 1 ||| (BitVec.ofBool b).setWidth w) x

/-! ### What is sent -/

@[simp] theorem length_topBits (n : ℕ) (x : BitVec w) : (topBits n x).length = n := by
  simp [topBits]

@[simp] theorem topBits_zero (x : BitVec w) : topBits 0 x = [] := rfl

theorem topBits_add (m n : ℕ) (x : BitVec w) :
    topBits (m + n) x = topBits m x ++ topBits n (x <<< m) := by
  rw [topBits, List.range_add, List.map_append, List.map_map, topBits, topBits]
  congr 1
  apply List.map_congr_left
  intro k _
  rw [Function.comp_apply, BitVec.getMsbD_shiftLeft, Nat.add_comm]

/-- One clock sends the highest bit. -/
theorem topBits_succ (n : ℕ) (x : BitVec w) :
    topBits (n + 1) x = x.getMsbD 0 :: topBits n (x <<< 1) := by
  rw [Nat.add_comm, topBits_add]
  rfl

theorem topBits_congr {n : ℕ} {v : ℕ} {x : BitVec w} {y : BitVec v}
    (h : ∀ k < n, x.getMsbD k = y.getMsbD k) : topBits n x = topBits n y :=
  List.map_congr_left fun k hk => h k (List.mem_range.mp hk)

/-- Byte `k` of a word, counted from the high end. -/
def topByte (x : BitVec w) (k : ℕ) : BitVec 8 := (x <<< (8 * k)).extractLsb' (w - 8) 8

/-- **A whole number of bytes is sent byte by byte.** -/
theorem topBits_bytes (hw : 8 ≤ w) (n : ℕ) (x : BitVec w) :
    topBits (8 * n) x = (List.range n).flatMap fun k => topBits 8 (topByte x k) := by
  induction n with
  | zero => rfl
  | succ n ih =>
    rw [Nat.mul_succ, topBits_add, ih, List.range_succ, List.flatMap_append, List.flatMap_singleton]
    congr 1
    apply topBits_congr
    intro k hk
    rw [topByte, BitVec.getMsbD_eq_getLsbD, BitVec.getMsbD_eq_getLsbD, BitVec.getLsbD_extractLsb']
    simp only [hk, show k < w by omega, show 8 - 1 - k < 8 by omega, decide_true, Bool.true_and]
    congr 1
    omega

/-! ### What is taken in -/

@[simp] theorem shiftIn_nil (x : BitVec w) : shiftIn x [] = x := rfl

theorem shiftIn_cons (x : BitVec w) (b : Bool) (bits : List Bool) :
    shiftIn x (b :: bits) = shiftIn (x <<< 1 ||| (BitVec.ofBool b).setWidth w) bits := rfl

theorem shiftIn_append (x : BitVec w) (bits bits' : List Bool) :
    shiftIn x (bits ++ bits') = shiftIn (shiftIn x bits) bits' := List.foldl_append

/-- **The bits of the register**: the last one taken in is the lowest. -/
theorem getLsbD_shiftIn (x : BitVec w) (bits : List Bool) (i : ℕ) (hi : i < w) :
    (shiftIn x bits).getLsbD i =
      if h : i < bits.length then bits[bits.length - 1 - i] else x.getLsbD (i - bits.length) := by
  induction bits using List.reverseRecOn generalizing i with
  | nil => simp
  | append_singleton bits b ih =>
    rw [shiftIn_append, shiftIn_cons, shiftIn_nil, BitVec.getLsbD_or, BitVec.getLsbD_shiftLeft,
      BitVec.getLsbD_setWidth]
    cases i with
    | zero => simp [hi]
    | succ i =>
      simp only [hi, decide_true, Bool.true_and, Nat.add_sub_cancel, List.length_append,
        List.length_singleton, Nat.succ_lt_succ_iff, show ¬ i + 1 < 1 by omega, decide_false,
        Bool.not_false]
      rw [ih i (by omega), BitVec.getLsbD_of_ge (BitVec.ofBool b) (i + 1) (by omega), Bool.or_false]
      by_cases h : i < bits.length
      · rw [dif_pos h, dif_pos h, List.getElem_append_left (by omega)]
        congr 1
        omega
      · rw [dif_neg h, dif_neg h]
        congr 1
        omega

/-- A register that takes in as many bits as it has is what sent them. -/
theorem shiftIn_topBits (x y : BitVec w) : shiftIn x (topBits w y) = y := by
  apply BitVec.eq_of_getLsbD_eq
  intro i hi
  rw [getLsbD_shiftIn _ _ _ hi, dif_pos (by rwa [length_topBits])]
  simp only [topBits, List.getElem_map, List.getElem_range, List.length_map, List.length_range,
    BitVec.getMsbD_eq_getLsbD, show w - 1 - i < w by omega, decide_true, Bool.true_and]
  congr 1
  omega

/-- The byte that was taken in last. -/
theorem shiftIn_byte_zero (hw : 8 ≤ w) (x : BitVec w) (b : BitVec 8) :
    (shiftIn x (topBits 8 b)).extractLsb' 0 8 = b := by
  apply BitVec.eq_of_getLsbD_eq
  intro i hi
  rw [BitVec.getLsbD_extractLsb', getLsbD_shiftIn _ _ _ (by omega),
    dif_pos (by rw [length_topBits]; omega)]
  simp only [topBits, List.getElem_map, List.getElem_range, List.length_map, List.length_range,
    BitVec.getMsbD_eq_getLsbD, hi, decide_true, Bool.true_and, Nat.zero_add,
    show 8 - 1 - i < 8 by omega]
  congr 1
  omega

/-- The bytes before it move up. -/
theorem shiftIn_byte_succ {k : ℕ} (hk : 8 * (k + 1) + 8 ≤ w) (x : BitVec w) (b : BitVec 8) :
    (shiftIn x (topBits 8 b)).extractLsb' (8 * (k + 1)) 8 = x.extractLsb' (8 * k) 8 := by
  apply BitVec.eq_of_getLsbD_eq
  intro i hi
  rw [BitVec.getLsbD_extractLsb', BitVec.getLsbD_extractLsb', getLsbD_shiftIn _ _ _ (by omega),
    dif_neg (by rw [length_topBits]; omega), length_topBits,
    show 8 * (k + 1) + i - 8 = 8 * k + i by omega]

/-- **The bytes of the register**: the last one taken in is the lowest. -/
theorem shiftIn_bytes (x : BitVec w) (bs : List (BitVec 8)) {k : ℕ} (hk : 8 * k + 8 ≤ w)
    (hlen : k < bs.length) :
    (shiftIn x (bs.flatMap (topBits 8))).extractLsb' (8 * k) 8 = bs[bs.length - 1 - k] := by
  induction bs using List.reverseRecOn generalizing k with
  | nil => exact absurd hlen (Nat.not_lt_zero k)
  | append_singleton bs b ih =>
    rw [List.flatMap_append, List.flatMap_singleton, shiftIn_append]
    cases k with
    | zero =>
      rw [Nat.mul_zero, shiftIn_byte_zero (by omega)]
      simp
    | succ k =>
      rw [List.length_append, List.length_singleton] at hlen
      rw [shiftIn_byte_succ hk, ih (by omega) (by omega), List.getElem_append_left (by
        rw [List.length_append, List.length_singleton]
        omega)]
      congr 1
      rw [List.length_append, List.length_singleton]
      omega

end Filestick.ShiftRegister
