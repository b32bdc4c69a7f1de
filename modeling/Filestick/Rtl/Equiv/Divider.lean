import Filestick.Lib.RestoringDivision
import Filestick.Lib.Riscv
import Filestick.Rtl.FemtoRV32

/-!
# The divider

* `Dividing`: the registers of the divider with `j` bits to go; `dividing_start`, `Dividing.step`.
* `sdiv_eq`, `srem_eq`: the signed results from the magnitudes of the operands.
* `aluOutMuldiv_of_partial`: what the divider leaves is the result that the instruction set asks
  for, with the divisor 0 as without.
-/

namespace Filestick.FemtoRV32

open Riscv RestoringDivision

/-- What is left of the dividend `n` and the quotient, with `j` bits to go. -/
def Partial (n d j : ℕ) (rest quotient : ℕ) : Prop :=
  if d = 0 then rest = n ∧ quotient = 2 ^ 32 - 2 ^ j else Divides n d j rest quotient

/-- The registers of the divider with `j` bits to go. -/
structure Dividing (n d j : ℕ) (s : FemtoRV32) : Prop where
  rest : Partial n d j s.dividend.toNat s.quotient.toNat
  divisor : s.divisor.toNat = d * 2 ^ j / 2
  mask : s.quotientMsk.toNat = 2 ^ j / 2

variable {s : FemtoRV32} {n d j : ℕ}

theorem Dividing.next (h : Dividing n d (j + 1) s) (hj : j < 32) :
    Partial n d j s.dividendN.toNat s.quotientN.toNat := by
  have hdivisor : s.divisor.toNat = d * 2 ^ j := by
    rw [h.divisor, pow_succ, ← Nat.mul_assoc, Nat.mul_div_cancel _ (by decide)]
  have hmask : s.quotientMsk.toNat = 2 ^ j := by
    rw [h.mask, pow_succ, Nat.mul_div_cancel _ (by decide)]
  have hrest := s.dividend.isLt
  have hdo : s.divstepDo = decide (d * 2 ^ j ≤ s.dividend.toNat) := by
    rw [divstepDo, decide_eq_decide, BitVec.le_def, hdivisor, BitVec.toNat_setWidth,
      Nat.mod_eq_of_lt (by omega)]
  have hsub (hle : d * 2 ^ j ≤ s.dividend.toNat) :
      (s.dividend - s.divisor.setWidth 32).toNat = s.dividend.toNat - d * 2 ^ j := by
    rw [BitVec.toNat_sub_of_le, BitVec.toNat_setWidth, hdivisor, Nat.mod_eq_of_lt (by omega)]
    rw [BitVec.le_def, BitVec.toNat_setWidth, hdivisor, Nat.mod_eq_of_lt (by omega)]
    exact hle
  have h' := h.rest
  unfold Partial at h' ⊢
  unfold dividendN quotientN
  rw [hdo]
  by_cases hd : d = 0
  · rw [if_pos hd] at h' ⊢
    obtain ⟨hn, hq⟩ := h'
    subst hd
    have hle : 0 * 2 ^ j ≤ s.dividend.toNat := by omega
    rw [decide_eq_true hle, if_pos rfl, if_pos rfl, hsub hle, BitVec.toNat_or, hmask, hq]
    exact ⟨by omega, byZero_step hj⟩
  · rw [if_neg hd] at h' ⊢
    have hstep := h'.step
    by_cases hle : d * 2 ^ j ≤ s.dividend.toNat
    · rw [if_pos hle, if_pos hle] at hstep
      rw [decide_eq_true hle, if_pos rfl, if_pos rfl, hsub hle, BitVec.toNat_or, hmask,
        h'.quotient_or]
      exact hstep
    · rw [if_neg hle, if_neg hle] at hstep
      rw [decide_eq_false hle, if_neg Bool.false_ne_true, if_neg Bool.false_ne_true]
      exact hstep

/-- One clock. -/
theorem Dividing.step (h : Dividing n d (j + 1) s) (hj : j < 32) (hs : s.state ≠ .execute)
    (i : CpuInput) : Dividing n d j (s.step i) ∧
      Partial n d j s.dividendN.toNat s.quotientN.toNat ∧
      (s.step i).divResult = if s.ins.getLsbD 13 then s.dividendN else s.quotientN := by
  have hwr : (s.isDivide && s.aluWr) = false := by
    rw [aluWr, beq_eq_false_iff_ne.mpr hs, Bool.false_and, Bool.and_false]
  have hclock : s.clockDivider =
      { s with
        dividend := s.dividendN
        divisor := s.divisor >>> 1
        quotient := s.quotientN
        quotientMsk := s.quotientMsk >>> 1
        divResult := if s.ins.getLsbD 13 then s.dividendN else s.quotientN } := by
    rw [clockDivider, hwr]
    rfl
  have hrest : (s.step i).dividend = s.dividendN := congrArg FemtoRV32.dividend hclock
  have hquotient : (s.step i).quotient = s.quotientN := congrArg FemtoRV32.quotient hclock
  have hdivisor : (s.step i).divisor = s.divisor >>> 1 := congrArg FemtoRV32.divisor hclock
  have hmask : (s.step i).quotientMsk = s.quotientMsk >>> 1 :=
    congrArg FemtoRV32.quotientMsk hclock
  refine ⟨⟨?_, ?_, ?_⟩, h.next hj, congrArg FemtoRV32.divResult hclock⟩
  · rw [hrest, hquotient]
    exact h.next hj
  · rw [hdivisor, BitVec.toNat_ushiftRight, h.divisor, Nat.shiftRight_one, pow_succ,
      ← Nat.mul_assoc, Nat.mul_div_cancel _ (by decide)]
  · rw [hmask, BitVec.toNat_ushiftRight, h.mask, Nat.shiftRight_one, pow_succ,
      Nat.mul_div_cancel _ (by decide)]

/-- The operand without its sign. -/
def magnitude (signed : Bool) (x : Word) : Word := if signed && x.getLsbD 31 then -x else x

/-- The clock on which a division begins. -/
theorem dividing_start (hs : s.state = .execute) (hdiv : s.isDivide = true) (i : CpuInput) :
    Dividing (magnitude (!s.ins.getLsbD 12) s.aluIn1).toNat
      (magnitude (!s.ins.getLsbD 12) s.aluIn2).toNat 32 (s.step i) := by
  have hwr : (s.isDivide && s.aluWr) = true := by
    have hreg : s.isALUreg = true := by
      rw [isDivide, Bool.and_eq_true, Bool.and_eq_true] at hdiv
      exact hdiv.1.1
    rw [hdiv, aluWr, hs, isALU, hreg, Bool.or_true]
    rfl
  have hclock : s.clockDivider =
      { s with
        dividend := magnitude (!s.ins.getLsbD 12) s.aluIn1
        divisor := magnitude (!s.ins.getLsbD 12) s.aluIn2 ++ 0#31
        quotient := 0#32
        quotientMsk := 1#32 <<< 31
        divResult := if s.ins.getLsbD 13 then s.dividendN else s.quotientN } := by
    rw [clockDivider, hwr]
    rfl
  generalize magnitude (!s.ins.getLsbD 12) s.aluIn1 = x at hclock ⊢
  generalize magnitude (!s.ins.getLsbD 12) s.aluIn2 = y at hclock ⊢
  have hrest : (s.step i).dividend = x := congrArg dividend hclock
  have hquotient : (s.step i).quotient = 0#32 := congrArg quotient hclock
  have hdivisor : (s.step i).divisor = y ++ 0#31 := congrArg divisor hclock
  have hmask : (s.step i).quotientMsk = 1#32 <<< 31 := congrArg quotientMsk hclock
  refine ⟨?_, ?_, ?_⟩
  · rw [hrest, hquotient, Partial]
    split_ifs with hd
    · exact ⟨rfl, by rw [BitVec.toNat_zero, Nat.sub_self]⟩
    · refine Divides.start (Nat.lt_of_lt_of_le x.isLt ?_)
      exact Nat.le_mul_of_pos_left _ (Nat.pos_of_ne_zero hd)
  · have happ : (y ++ 0#31 : BitVec 63).toNat = y.toNat * 2 ^ 31 := by
      rw [BitVec.toNat_append, ← Nat.shiftLeft_add_eq_or_of_lt (BitVec.isLt _), Nat.shiftLeft_eq,
        BitVec.toNat_zero, Nat.add_zero]
    rw [hdivisor, happ]
    omega
  · rw [hmask]
    rfl

/-! ### The result -/

/-- The quotient and the remainder of a division that is done. -/
theorem Partial.words {x y rest quotient : Word}
    (h : Partial x.toNat y.toNat 0 rest.toNat quotient.toNat) :
    quotient = (if y = 0#32 then BitVec.allOnes 32 else x / y) ∧
      rest = if y = 0#32 then x else x % y := by
  unfold Partial at h
  by_cases hy : y = 0#32
  · subst hy
    have h0 : (0#32).toNat = 0 := rfl
    rw [if_pos h0] at h
    rw [if_pos rfl, if_pos rfl]
    exact ⟨BitVec.eq_of_toNat_eq h.2, BitVec.eq_of_toNat_eq h.1⟩
  · have hd : y.toNat ≠ 0 := fun h0 => hy (BitVec.eq_of_toNat_eq h0)
    rw [if_neg hd] at h
    rw [if_neg hy, if_neg hy]
    obtain ⟨hq, hr⟩ := h.done
    exact ⟨BitVec.eq_of_toNat_eq (hq.trans BitVec.toNat_udiv.symm),
      BitVec.eq_of_toNat_eq (hr.trans BitVec.toNat_umod.symm)⟩

theorem neg_eq_zero_iff (y : Word) : -y = 0#32 ↔ y = 0#32 := by
  constructor
  · intro h
    have h' := congrArg Neg.neg h
    simpa using h'
  · rintro rfl
    rfl

theorem magnitude_eq_zero_iff (signed : Bool) (y : Word) :
    magnitude signed y = 0#32 ↔ y = 0#32 := by
  unfold magnitude
  split_ifs
  · exact neg_eq_zero_iff y
  · exact Iff.rfl

/-- The signed quotient from the magnitudes. -/
theorem sdiv_eq (x y : Word) :
    x.sdiv y = if x.getLsbD 31 != y.getLsbD 31 then -(magnitude true x / magnitude true y)
      else magnitude true x / magnitude true y := by
  rw [BitVec.sdiv_eq, BitVec.msb_eq_getLsbD_last, BitVec.msb_eq_getLsbD_last]
  unfold magnitude
  cases x.getLsbD 31 <;> cases y.getLsbD 31 <;> rfl

/-- The signed remainder from the magnitudes. -/
theorem srem_eq (x y : Word) :
    x.srem y = if x.getLsbD 31 then -(magnitude true x % magnitude true y)
      else magnitude true x % magnitude true y := by
  rw [BitVec.srem_eq, BitVec.msb_eq_getLsbD_last, BitVec.msb_eq_getLsbD_last]
  unfold magnitude
  cases x.getLsbD 31 <;> cases y.getLsbD 31 <;> rfl

/-- **The result**, once its sign is put to it. -/
theorem aluOutMuldiv_of_partial {rest quotient : Word} {op : MulDiv}
    (h12 : s.ins.getLsbD 12 = op.funct3.getLsbD 0) (h13 : s.ins.getLsbD 13 = op.funct3.getLsbD 1)
    (h14 : s.ins.getLsbD 14 = op.funct3.getLsbD 2) (hdiv : op.funct3.getLsbD 2 = true)
    (h : Partial (magnitude (!s.ins.getLsbD 12) s.aluIn1).toNat
      (magnitude (!s.ins.getLsbD 12) s.aluIn2).toNat 0 rest.toNat quotient.toNat)
    (hresult : s.divResult = if s.ins.getLsbD 13 then rest else quotient) :
    s.aluOutMuldiv = op.eval s.aluIn1 s.aluIn2 := by
  obtain ⟨hq, hr⟩ := h.words
  simp only [magnitude_eq_zero_iff] at hq hr
  rw [aluOutMuldiv, h14, hdiv, if_pos rfl, divSign, hresult, h12, h13]
  rw [h12] at hq hr
  generalize s.aluIn1 = x at hq hr ⊢
  generalize s.aluIn2 = y at hq hr ⊢
  cases op with
  | mul | mulh | mulhsu | mulhu => exact absurd hdiv (by decide)
  | div =>
    have h0 : MulDiv.div.funct3.getLsbD 0 = false := rfl
    have h1 : MulDiv.div.funct3.getLsbD 1 = false := rfl
    rw [h0, Bool.not_false] at hq ⊢
    rw [h1, Bool.true_and, if_neg Bool.false_ne_true, if_neg Bool.false_ne_true, MulDiv.eval]
    by_cases hy : y = 0#32
    · rw [if_pos hy] at hq ⊢
      rw [bne_eq_false_iff_eq.mpr hy, Bool.and_false, if_neg Bool.false_ne_true, hq]
    · rw [if_neg hy] at hq ⊢
      rw [bne_iff_ne.mpr hy, Bool.and_true, hq, sdiv_eq]
  | divu =>
    have h0 : MulDiv.divu.funct3.getLsbD 0 = true := rfl
    have h1 : MulDiv.divu.funct3.getLsbD 1 = false := rfl
    rw [h0] at hq ⊢
    rw [h1]
    exact hq
  | rem =>
    have h0 : MulDiv.rem.funct3.getLsbD 0 = false := rfl
    have h1 : MulDiv.rem.funct3.getLsbD 1 = true := rfl
    rw [h0, Bool.not_false] at hr ⊢
    rw [h1, Bool.true_and, if_pos rfl, if_pos rfl, MulDiv.eval]
    by_cases hy : y = 0#32
    · rw [if_pos hy] at hr ⊢
      rw [hr, magnitude, Bool.true_and]
      split_ifs
      · exact BitVec.neg_neg
      · rfl
    · rw [if_neg hy] at hr ⊢
      rw [hr, srem_eq]
  | remu =>
    have h0 : MulDiv.remu.funct3.getLsbD 0 = true := rfl
    have h1 : MulDiv.remu.funct3.getLsbD 1 = true := rfl
    rw [h0] at hr ⊢
    rw [h1]
    exact hr

end Filestick.FemtoRV32
