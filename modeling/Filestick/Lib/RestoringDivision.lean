import Mathlib.Algebra.Group.Nat.Defs
import Mathlib.Tactic.Ring

/-!
# Restoring division

The quotient is found from its highest bit on: with `j` bits left to go, the divisor `d` is taken
from what is left of the dividend at `d * 2 ^ j`, wherever it fits.

* `Divides`: what holds between two steps, and `Divides.start`, `Divides.step`, `Divides.done`.
* `Divides.quotient_or`: a bit of the quotient can be set without a carry.
* `byZero_step`: with the divisor 0, every bit is set.
-/

namespace Filestick.RestoringDivision

variable {n d j rest quotient : ℕ}

/-- The state with `j` bits to go: `rest` is left of the dividend `n`. -/
structure Divides (n d j rest quotient : ℕ) : Prop where
  rest_lt : rest < d * 2 ^ j
  sum : n = d * quotient + rest
  bits : 2 ^ j ∣ quotient

theorem Divides.start (h : n < d * 2 ^ j) : Divides n d j n 0 :=
  ⟨h, by rw [Nat.mul_zero, Nat.zero_add], dvd_zero _⟩

/-- **One step.** -/
theorem Divides.step (h : Divides n d (j + 1) rest quotient) :
    Divides n d j (if d * 2 ^ j ≤ rest then rest - d * 2 ^ j else rest)
      (if d * 2 ^ j ≤ rest then quotient + 2 ^ j else quotient) := by
  have hlt : rest < d * 2 ^ j + d * 2 ^ j := by
    have hrest := h.rest_lt
    rw [pow_succ, ← Nat.mul_assoc] at hrest
    omega
  have hbits : 2 ^ j ∣ quotient := (pow_dvd_pow 2 (Nat.le_succ j)).trans h.bits
  split_ifs with hle
  · refine ⟨by omega, ?_, Nat.dvd_add hbits (Nat.dvd_refl _)⟩
    have hsum := h.sum
    rw [Nat.mul_add]
    omega
  · exact ⟨Nat.lt_of_not_le hle, h.sum, hbits⟩

/-- **The end**: the quotient and the remainder. -/
theorem Divides.done (h : Divides n d 0 rest quotient) : quotient = n / d ∧ rest = n % d := by
  have hlt : rest < d := by simpa using h.rest_lt
  have hpos : 0 < d := Nat.zero_lt_of_lt hlt
  rw [h.sum]
  constructor
  · rw [Nat.mul_add_div hpos, Nat.div_eq_of_lt hlt, Nat.add_zero]
  · rw [Nat.mul_add_mod, Nat.mod_eq_of_lt hlt]

/-- The bit that is set next is not set yet. -/
theorem Divides.quotient_or (h : Divides n d (j + 1) rest quotient) :
    quotient ||| 2 ^ j = quotient + 2 ^ j := by
  obtain ⟨k, rfl⟩ := h.bits
  have hlt : 2 ^ j < 2 ^ (j + 1) := Nat.pow_lt_pow_right (by decide) (Nat.lt_succ_self j)
  exact (Nat.two_pow_add_eq_or_of_lt hlt k).symm

/-- **With the divisor 0**, nothing is taken away, and the bits from `j` on are set. -/
theorem byZero_step {k : ℕ} (hj : j < k) :
    (2 ^ k - 2 ^ (j + 1)) ||| 2 ^ j = 2 ^ k - 2 ^ j := by
  obtain ⟨i, rfl⟩ := Nat.exists_eq_add_of_lt hj
  have hlt : 2 ^ j < 2 ^ (j + 1) := Nat.pow_lt_pow_right (by decide) (Nat.lt_succ_self j)
  have hsplit : 2 ^ (j + i + 1) - 2 ^ (j + 1) = 2 ^ (j + 1) * (2 ^ i - 1) := by
    rw [Nat.mul_sub, Nat.mul_one, ← pow_add]
    congr 2
    omega
  rw [hsplit, ← Nat.two_pow_add_eq_or_of_lt hlt, ← hsplit]
  have hle : 2 ^ (j + 1) ≤ 2 ^ (j + i + 1) := Nat.pow_le_pow_right (by decide) (by omega)
  have hdouble : 2 ^ (j + 1) = 2 ^ j + 2 ^ j := by
    rw [pow_succ]
    omega
  omega

end Filestick.RestoringDivision
