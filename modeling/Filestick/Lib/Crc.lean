import Filestick.Lib.Hdlc
import Mathlib.Data.BitVec

/-!
# Check registers

A check register of `n` bits takes in one bit at a time: it is shifted right, and the generator
polynomial `poly` is added to it when the bit that falls out is not the bit that comes in.

* `step_xor`: a step is linear.
* `run_injective`: when `poly` has its highest bit, different registers stay different.
* `run_preload`: up to `n` bits can be added to the register at once, before they are shifted in.
* `run_byteBits`: the step for a byte, which is what a table of 256 words holds.
* `run_eq_iff`: from any register exactly one list of `n` bits leads where a given one does.
* `eq_of_burst`: lists that differ in a window of `n` bits at most do not lead to the same register.
-/

namespace Filestick.Crc

open Hdlc

variable {n : ℕ} {poly : BitVec n}

/-- One bit. -/
def step (poly r : BitVec n) (b : Bool) : BitVec n :=
  (r >>> 1) ^^^ (if r.getLsbD 0 ^^ b then poly else 0#n)

/-- The register after `bits`. -/
def run (poly r : BitVec n) (bits : List Bool) : BitVec n := bits.foldl (step poly) r

@[simp] theorem run_nil (r : BitVec n) : run poly r [] = r := rfl

@[simp] theorem run_cons (r : BitVec n) (b : Bool) (bits : List Bool) :
    run poly r (b :: bits) = run poly (step poly r b) bits := rfl

theorem run_append (r : BitVec n) (bits bits' : List Bool) :
    run poly r (bits ++ bits') = run poly (run poly r bits) bits' := List.foldl_append

theorem getLsbD_step (r : BitVec n) (b : Bool) (i : ℕ) :
    (step poly r b).getLsbD i = (r.getLsbD (i + 1) ^^ (r.getLsbD 0 ^^ b) && poly.getLsbD i) := by
  rw [step, BitVec.getLsbD_xor, BitVec.getLsbD_ushiftRight, Nat.add_comm]
  cases r.getLsbD 0 ^^ b <;> simp

/-- **A step is linear.** -/
theorem step_xor (r r' : BitVec n) (b b' : Bool) :
    step poly (r ^^^ r') (b ^^ b') = step poly r b ^^^ step poly r' b' := by
  apply BitVec.eq_of_getLsbD_eq
  intro i _
  simp only [getLsbD_step, BitVec.getLsbD_xor]
  cases r.getLsbD (i + 1) <;> cases r'.getLsbD (i + 1) <;> cases r.getLsbD 0 <;>
    cases r'.getLsbD 0 <;> cases b <;> cases b' <;> cases poly.getLsbD i <;> rfl

/-- The register after `n` zeros is linear in the register before them. -/
theorem run_zeros_xor (k : ℕ) (r r' : BitVec n) :
    run poly (r ^^^ r') (List.replicate k false)
      = run poly r (List.replicate k false) ^^^ run poly r' (List.replicate k false) := by
  induction k generalizing r r' with
  | zero => rfl
  | succ k ih =>
    rw [List.replicate_succ, run_cons, run_cons, run_cons, ← ih, ← step_xor]
    rfl

/-- The bit that falls out of the register can be read off the highest bit of the next one. -/
theorem step_injective (hpoly : poly.getLsbD (n - 1) = true) (b : Bool) {r r' : BitVec n}
    (h : step poly r b = step poly r' b) : r = r' := by
  have hbit : ∀ i, (r.getLsbD (i + 1) ^^ (r.getLsbD 0 ^^ b) && poly.getLsbD i)
      = (r'.getLsbD (i + 1) ^^ (r'.getLsbD 0 ^^ b) && poly.getLsbD i) := by
    intro i
    rw [← getLsbD_step, ← getLsbD_step, h]
  have hzero : r.getLsbD 0 = r'.getLsbD 0 := by
    have htop := hbit (n - 1)
    rw [BitVec.getLsbD_of_ge r _ (by omega), BitVec.getLsbD_of_ge r' _ (by omega), hpoly] at htop
    revert htop
    cases r.getLsbD 0 <;> cases r'.getLsbD 0 <;> cases b <;> simp
  apply BitVec.eq_of_getLsbD_eq
  intro i _
  cases i with
  | zero => exact hzero
  | succ i =>
    have hi := hbit i
    rw [hzero] at hi
    exact Bool.xor_left_inj.mp hi

/-- **Different registers stay different.** -/
theorem run_injective (hpoly : poly.getLsbD (n - 1) = true) (bits : List Bool) {r r' : BitVec n}
    (h : run poly r bits = run poly r' bits) : r = r' := by
  induction bits generalizing r r' with
  | nil => exact h
  | cons b bits ih => exact step_injective hpoly b (ih h)

/-! ### Bits that are added at once -/

/-- The bits of a register, lowest first. -/
def preload (n : ℕ) (bits : List Bool) : BitVec n := (BitVec.ofBoolListLE bits).setWidth n

theorem getLsbD_preload (bits : List Bool) (i : ℕ) :
    (preload n bits).getLsbD i = (decide (i < n) && bits.getD i false) := by
  rw [preload, BitVec.getLsbD_setWidth, BitVec.getLsbD_ofBoolListLE]

theorem preload_injective {bits bits' : List Bool} (hlen : bits'.length = bits.length)
    (hn : bits.length ≤ n) (h : preload n bits = preload n bits') : bits = bits' := by
  apply List.ext_getElem hlen.symm
  intro i hi hi'
  have hbit := congrArg (fun r : BitVec n => r.getLsbD i) h
  simp only [getLsbD_preload] at hbit
  have hin : i < n := by omega
  simpa [hin, List.getD_eq_getElem?_getD, hi, hi'] using hbit

/-- A bit that comes in may as well be added to the register before. -/
theorem step_preload {b : Bool} {bits : List Bool} (hn : bits.length < n) (r : BitVec n) :
    step poly (r ^^^ preload n (b :: bits)) false = step poly r b ^^^ preload n bits := by
  apply BitVec.eq_of_getLsbD_eq
  intro i hi
  have hpos : 0 < n := by omega
  simp only [getLsbD_step, BitVec.getLsbD_xor, getLsbD_preload, hi, hpos, decide_true,
    Bool.true_and, List.getD_cons_succ, List.getD_cons_zero]
  rcases Nat.lt_or_ge (i + 1) n with h | h
  · simp only [h, decide_true, Bool.true_and]
    cases r.getLsbD (i + 1) <;> cases r.getLsbD 0 <;> cases b <;> cases bits.getD i false <;>
      cases poly.getLsbD i <;> rfl
  · -- the highest bit: no bit of the list reaches it
    have hno : bits.getD i false = false := by
      rw [List.getD_eq_getElem?_getD, List.getElem?_eq_none (by omega)]
      rfl
    have hge : ¬i + 1 < n := by omega
    simp only [hge, decide_false, Bool.false_and, hno, Bool.xor_false]

/-- **Up to `n` bits can be added to the register at once.** -/
theorem run_preload {bits : List Bool} (hn : bits.length ≤ n) (r : BitVec n) :
    run poly r bits = run poly (r ^^^ preload n bits) (List.replicate bits.length false) := by
  induction bits generalizing r with
  | nil =>
    have hzero : preload n [] = 0#n := by
      apply BitVec.eq_of_getLsbD_eq
      intro i _
      rw [getLsbD_preload]
      simp
    rw [hzero, BitVec.xor_zero]
    rfl
  | cons b bits ih =>
    rw [List.length_cons] at hn
    rw [List.length_cons, List.replicate_succ, run_cons, run_cons, step_preload (by omega),
      ih (by omega)]

/-- From a register, two lists of `n` bits at most lead to the same register only when they are the
same. -/
theorem run_bits_injective (hpoly : poly.getLsbD (n - 1) = true) {r : BitVec n}
    {bits bits' : List Bool} (hlen : bits'.length = bits.length) (hn : bits.length ≤ n)
    (h : run poly r bits = run poly r bits') : bits = bits' := by
  rw [run_preload hn, run_preload (hlen.trans_le hn), hlen] at h
  have hxor := run_injective hpoly _ h
  exact preload_injective hlen hn ((BitVec.xor_right_inj r).mp hxor)

/-- **The check sequence**: from any register, `n` bits lead to what the complement of a register
leads to by zeros exactly when they are the ones that make this complement of it. -/
theorem run_eq_iff (hpoly : poly.getLsbD (n - 1) = true) {r m : BitVec n} {bits : List Bool}
    (hn : bits.length = n) :
    run poly r bits = run poly m (List.replicate n false) ↔ r ^^^ preload n bits = m := by
  rw [run_preload hn.le, hn]
  exact ⟨run_injective hpoly _, fun h => by rw [h]⟩

/-! ### Bursts -/

/-- **Burst errors**: two lists of the same length that agree outside a window of `n` bits, and lead
to the same register, are the same. -/
theorem eq_of_burst (hpoly : poly.getLsbD (n - 1) = true) {r : BitVec n} {bits bits' : List Bool}
    (hlen : bits'.length = bits.length) {k : ℕ}
    (hout : ∀ i, i < k ∨ k + n ≤ i → bits'[i]? = bits[i]?)
    (h : run poly r bits = run poly r bits') : bits = bits' := by
  have hhead : bits'.take k = bits.take k := by
    apply List.ext_getElem?
    intro i
    rcases Nat.lt_or_ge i k with hi | hi
    · rw [List.getElem?_take_of_lt hi, List.getElem?_take_of_lt hi, hout i (Or.inl hi)]
    · rw [List.getElem?_take_eq_none hi, List.getElem?_take_eq_none hi]
  have htail : (bits'.drop k).drop n = (bits.drop k).drop n := by
    apply List.ext_getElem?
    intro i
    simp only [List.getElem?_drop]
    exact hout _ (Or.inr (by omega))
  -- the part before the window, the window, and the part behind it
  have hsplit : ∀ l : List Bool, l = l.take k ++ ((l.drop k).take n ++ (l.drop k).drop n) := by
    intro l
    rw [List.take_append_drop, List.take_append_drop]
  have hwindow : (bits.drop k).take n = (bits'.drop k).take n := by
    rw [hsplit bits, hsplit bits', hhead, htail, run_append, run_append, run_append,
      run_append] at h
    have hmid := run_injective hpoly _ h
    refine run_bits_injective hpoly ?_ (by rw [List.length_take]; omega) hmid
    rw [List.length_take, List.length_take, List.length_drop, List.length_drop, hlen]
  rw [hsplit bits, hsplit bits', hhead, htail, hwindow]

/-! ### Bytes -/

/-- A register whose lowest bits are clear only moves down. -/
theorem run_zeros_of_clear (k : ℕ) {r : BitVec n} (h : ∀ i < k, r.getLsbD i = false) :
    run poly r (List.replicate k false) = r >>> k := by
  induction k generalizing r with
  | zero => rw [List.replicate_zero, run_nil, BitVec.ushiftRight_zero]
  | succ k ih =>
    have hstep : step poly r false = r >>> 1 := by
      rw [step, h 0 (by omega)]
      simp
    rw [List.replicate_succ, run_cons, hstep, ih, ← BitVec.shiftRight_add, Nat.add_comm]
    intro i hi
    rw [BitVec.getLsbD_ushiftRight, Nat.add_comm]
    exact h (i + 1) (by omega)

theorem preload_byteBits (b : BitVec 8) : preload n (byteBits b) = b.setWidth n := by
  apply BitVec.eq_of_getLsbD_eq
  intro i hi
  rw [getLsbD_preload, BitVec.getLsbD_setWidth, List.getD_eq_getElem?_getD, byteBits,
    List.getElem?_ofFn]
  by_cases h : i < 8
  · rw [dif_pos h]
    rfl
  · rw [dif_neg h, BitVec.getLsbD_of_ge b i (by omega)]
    rfl

/-- **A byte at a time**: what the low byte of the register and the byte make of a clear register,
added to the rest of the register moved down. -/
theorem run_byteBits (hn : 8 ≤ n) (r : BitVec n) (b : BitVec 8) :
    run poly r (byteBits b) = (r >>> 8) ^^^
      run poly ((r.setWidth 8 ^^^ b).setWidth n) (List.replicate 8 false) := by
  have hlen : (byteBits b).length = 8 := length_byteBits b
  set low := (r.setWidth 8).setWidth n with hlow
  have hclear : ∀ i < 8, (r ^^^ low).getLsbD i = false := by
    intro i hi
    have hin : i < n := by omega
    simp [hlow, hi, hin]
  have hshift : (r ^^^ low) >>> 8 = r >>> 8 := by
    apply BitVec.eq_of_getLsbD_eq
    intro i _
    simp [hlow, BitVec.getLsbD_ushiftRight, BitVec.getLsbD_xor, BitVec.getLsbD_setWidth]
  have hsum : r ^^^ b.setWidth n = (r ^^^ low) ^^^ (r.setWidth 8 ^^^ b).setWidth n := by
    rw [BitVec.setWidth_xor, ← hlow, ← BitVec.xor_assoc, BitVec.xor_assoc r low low,
      BitVec.xor_self, BitVec.xor_zero]
  rw [run_preload (hlen.le.trans hn), hlen, preload_byteBits, hsum, run_zeros_xor,
    run_zeros_of_clear 8 hclear, hshift]

end Filestick.Crc
