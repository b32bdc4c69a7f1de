import Filestick.Rtl.Equiv.Decompressor
import Filestick.Rtl.Hart

/-!
# The fields of an instruction, as the core decodes them

* `Holds`: the latched instruction has these fields; `Holds.opcode_eq` and the lemmas beside it.
* `minus_low`, `minus_high`, `slt_eq_ite`: the 33-bit subtraction and the comparisons.
* `shifter_logical`, `shifter_arithmetic`, `shifter_left`: the shifter.
-/

namespace Filestick.FemtoRV32

open Riscv

/-! ### Fields -/

/-- The latched instruction has these fields. -/
def Holds (s : FemtoRV32) (funct7 : BitVec 7) (rs2 rs1 : Reg) (funct3 : BitVec 3) (rd : Reg)
    (opcode : BitVec 5) : Prop :=
  s.instr = slots funct7 rs2 rs1 funct3 rd opcode

namespace Holds

variable {s : FemtoRV32} {f7 : BitVec 7} {r2 r1 rd : Reg} {f3 : BitVec 3} {opc : BitVec 5}

theorem ins_eq (h : Holds s f7 r2 r1 f3 rd opc) :
    s.ins = f7 ++ r2 ++ r1 ++ f3 ++ rd ++ opc ++ 0#2 :=
  congrArg (· ++ 0#2) h

theorem opcode_eq (h : Holds s f7 r2 r1 f3 rd opc) : s.opcode = opc := by
  rw [opcode, h.ins_eq, BitVec.extractLsb]
  simp (disch := decide) only [BitVec.extractLsb'_append_eq_of_le]
  exact BitVec.extractLsb'_append_eq_right

theorem rdId_eq (h : Holds s f7 r2 r1 f3 rd opc) : s.rdId = rd := by
  rw [rdId, h.ins_eq, BitVec.extractLsb]
  simp (disch := decide) only [BitVec.extractLsb'_append_eq_of_le]
  exact BitVec.extractLsb'_append_eq_right

theorem funct3_eq (h : Holds s f7 r2 r1 f3 rd opc) : s.funct3 = f3 := by
  rw [funct3, h.ins_eq, BitVec.extractLsb]
  simp (disch := decide) only [BitVec.extractLsb'_append_eq_of_le]
  exact BitVec.extractLsb'_append_eq_right

theorem rs1Id_eq (h : Holds s f7 r2 r1 f3 rd opc) : s.ins.extractLsb 19 15 = r1 := by
  rw [h.ins_eq, BitVec.extractLsb]
  simp (disch := decide) only [BitVec.extractLsb'_append_eq_of_le]
  exact BitVec.extractLsb'_append_eq_right

theorem rs2Id_eq (h : Holds s f7 r2 r1 f3 rd opc) : s.ins.extractLsb 24 20 = r2 := by
  rw [h.ins_eq, BitVec.extractLsb]
  simp (disch := decide) only [BitVec.extractLsb'_append_eq_of_le]
  exact BitVec.extractLsb'_append_eq_right

theorem csr_eq (h : Holds s f7 r2 r1 f3 rd opc) : s.csr = f7 ++ r2 := by
  rw [csr, h.ins_eq, BitVec.extractLsb]
  simp (disch := decide) only [BitVec.extractLsb'_append_eq_of_le]
  exact BitVec.extractLsb'_eq_self

theorem bit_eq (h : Holds s f7 r2 r1 f3 rd opc) (k : ℕ) :
    s.ins.getLsbD k = (f7 ++ r2 ++ r1 ++ f3 ++ rd ++ opc ++ 0#2).getLsbD k := by
  rw [h.ins_eq]

theorem bit30_eq (h : Holds s f7 r2 r1 f3 rd opc) : s.ins.getLsbD 30 = f7.getLsbD 5 := by
  rw [h.bit_eq]
  simp only [BitVec.getLsbD_append]
  rfl

theorem bit25_eq (h : Holds s f7 r2 r1 f3 rd opc) : s.ins.getLsbD 25 = f7.getLsbD 0 := by
  rw [h.bit_eq]
  simp only [BitVec.getLsbD_append]
  rfl

theorem bit14_eq (h : Holds s f7 r2 r1 f3 rd opc) : s.ins.getLsbD 14 = f3.getLsbD 2 := by
  rw [h.bit_eq]
  simp only [BitVec.getLsbD_append]
  rfl

theorem bit5_eq (h : Holds s f7 r2 r1 f3 rd opc) : s.ins.getLsbD 5 = opc.getLsbD 3 := by
  rw [h.bit_eq]
  simp only [BitVec.getLsbD_append]
  rfl

theorem bit4_eq (h : Holds s f7 r2 r1 f3 rd opc) : s.ins.getLsbD 4 = opc.getLsbD 2 := by
  rw [h.bit_eq]
  simp only [BitVec.getLsbD_append]
  rfl

theorem bit3_eq (h : Holds s f7 r2 r1 f3 rd opc) : s.ins.getLsbD 3 = opc.getLsbD 1 := by
  rw [h.bit_eq]
  simp only [BitVec.getLsbD_append]
  rfl

theorem bit12_eq (h : Holds s f7 r2 r1 f3 rd opc) : s.ins.getLsbD 12 = f3.getLsbD 0 := by
  rw [h.bit_eq]
  simp only [BitVec.getLsbD_append]
  rfl

theorem bit13_eq (h : Holds s f7 r2 r1 f3 rd opc) : s.ins.getLsbD 13 = f3.getLsbD 1 := by
  rw [h.bit_eq]
  simp only [BitVec.getLsbD_append]
  rfl

theorem size_eq (h : Holds s f7 r2 r1 f3 rd opc) :
    s.ins.extractLsb 13 12 = f3.extractLsb' 0 2 := by
  rw [h.ins_eq, BitVec.extractLsb]
  simp (disch := decide) only [BitVec.extractLsb'_append_eq_of_le,
    BitVec.extractLsb'_append_eq_of_add_le]

theorem iimm_eq {imm : BitVec 12} {r1 rd : Reg}
    (h : Holds s (imm.extractLsb' 5 7) (imm.extractLsb' 0 5) r1 f3 rd opc) :
    s.iimm = imm.signExtend 32 := by
  apply BitVec.eq_of_getLsbD_eq
  intro k hk
  simp only [iimm, BitVec.extractLsb, BitVec.getLsbD_append, getLsbD_spread,
    BitVec.getLsbD_extractLsb', h.bit_eq, BitVec.getLsbD_signExtend, BitVec.msb_eq_getLsbD_last]
  interval_cases k <;> simp

theorem simm_eq {imm : BitVec 12}
    (h : Holds s (imm.extractLsb' 5 7) r2 r1 f3 (imm.extractLsb' 0 5) opc) :
    s.simm = imm.signExtend 32 := by
  apply BitVec.eq_of_getLsbD_eq
  intro k hk
  simp only [simm, BitVec.extractLsb, BitVec.getLsbD_append, getLsbD_spread,
    BitVec.getLsbD_extractLsb', h.bit_eq, BitVec.getLsbD_signExtend, BitVec.msb_eq_getLsbD_last]
  interval_cases k <;> simp

theorem bimm_eq {imm : BitVec 12}
    (h : Holds s (imm.extractLsb' 11 1 ++ imm.extractLsb' 4 6) r2 r1 f3
      (imm.extractLsb' 0 4 ++ imm.extractLsb' 10 1) opc) :
    s.bimm = (imm ++ 0#1).signExtend 32 := by
  apply BitVec.eq_of_getLsbD_eq
  intro k hk
  simp only [bimm, BitVec.extractLsb, BitVec.getLsbD_append, getLsbD_spread,
    BitVec.getLsbD_extractLsb', h.bit_eq, BitVec.getLsbD_signExtend, BitVec.msb_eq_getLsbD_last]
  interval_cases k <;> simp

theorem uimm_eq {imm : BitVec 20} (h : s.instr = uSlots imm rd opc) :
    s.uimm = imm ++ 0#12 := by
  have h' : Holds s (imm.extractLsb' 13 7) (imm.extractLsb' 8 5) (imm.extractLsb' 3 5)
    (imm.extractLsb' 0 3) rd opc := h
  apply BitVec.eq_of_getLsbD_eq
  intro k hk
  simp only [uimm, BitVec.extractLsb, BitVec.getLsbD_append,
    BitVec.getLsbD_extractLsb', h'.bit_eq]
  interval_cases k <;> simp

theorem jimm_eq {imm : BitVec 20} (h : s.instr = (Instr.jal rd imm).slots) :
    s.jimm = (imm ++ 0#1).signExtend 32 := by
  have h' : Holds s _ _ _ _ rd _ := h
  apply BitVec.eq_of_getLsbD_eq
  intro k hk
  simp only [jimm, BitVec.extractLsb, BitVec.getLsbD_append, getLsbD_spread,
    BitVec.getLsbD_extractLsb', h'.bit_eq, BitVec.getLsbD_signExtend, BitVec.msb_eq_getLsbD_last]
  interval_cases k <;> simp

end Holds

/-! ### Words -/

section Words

variable (x y : BitVec 32)

theorem toNat_minus :
    ((1#1 ++ ~~~y) + (0#1 ++ x) + 1#33 : BitVec 33).toNat =
      (2 ^ 33 + x.toNat - y.toNat) % 2 ^ 33 := by
  have hx : (0#1 ++ x : BitVec 33).toNat = x.toNat := by
    rw [BitVec.toNat_append, ← Nat.shiftLeft_add_eq_or_of_lt x.isLt]
    exact Nat.zero_add x.toNat
  have hy : (1#1 ++ ~~~y : BitVec 33).toNat = 2 ^ 32 + (2 ^ 32 - 1 - y.toNat) := by
    rw [BitVec.toNat_append, ← Nat.shiftLeft_add_eq_or_of_lt (BitVec.isLt _), BitVec.toNat_not]
    rfl
  have hone : (1#33).toNat = 1 := rfl
  have hlt := y.isLt
  rw [BitVec.toNat_add, BitVec.toNat_add, hx, hy, hone]
  omega

theorem minus_low :
    ((1#1 ++ ~~~y) + (0#1 ++ x) + 1#33 : BitVec 33).setWidth 32 = x - y := by
  apply BitVec.eq_of_toNat_eq
  rw [BitVec.toNat_setWidth, toNat_minus, BitVec.toNat_sub]
  have hx := x.isLt
  have hy := y.isLt
  omega

theorem minus_high :
    ((1#1 ++ ~~~y) + (0#1 ++ x) + 1#33 : BitVec 33).getLsbD 32 = x.ult y := by
  rw [← BitVec.testBit_toNat, toNat_minus, BitVec.ult, Nat.testBit_eq_decide_div_mod_eq,
    decide_eq_decide]
  have hx := x.isLt
  have hy := y.isLt
  omega

theorem slt_eq_ite :
    x.slt y = if x.getLsbD 31 != y.getLsbD 31 then x.getLsbD 31 else x.ult y := by
  by_cases hmsb : x.msb = y.msb
  · rw [BitVec.slt_eq_ult_of_msb_eq hmsb]
    rw [BitVec.msb_eq_getLsbD_last, BitVec.msb_eq_getLsbD_last] at hmsb
    rw [hmsb, bne_self_eq_false]
    rfl
  · rw [BitVec.slt_eq_not_ult_of_msb_neq hmsb, BitVec.ult_eq_msb_of_msb_neq hmsb]
    rw [BitVec.msb_eq_getLsbD_last, BitVec.msb_eq_getLsbD_last] at hmsb
    rw [BitVec.msb_eq_getLsbD_last]
    rw [if_pos (bne_iff_ne.mpr hmsb)]
    exact (Bool.eq_not_of_ne hmsb).symm

theorem getLsbD_shifter (b : Bool) (n k : ℕ) :
    (((BitVec.ofBool b ++ x).sshiftRight n).setWidth 32).getLsbD k =
      (decide (k < 32) && if n + k < 32 then x.getLsbD (n + k) else b) := by
  rw [BitVec.getLsbD_setWidth, BitVec.getLsbD_sshiftRight]
  by_cases hk : k < 32
  · have hle : ¬1 + 32 ≤ k := by omega
    rw [decide_eq_true hk, decide_eq_false hle, BitVec.msb_append, BitVec.getLsbD_append]
    by_cases hnk : n + k < 32
    · rw [if_pos hnk, if_pos hnk, if_pos (by omega)]
      rfl
    · rw [if_neg hnk, if_neg hnk]
      by_cases hsum : n + k < 1 + 32
      · rw [if_pos hsum]
        have h32 : n + k - 32 = 0 := by omega
        rw [h32]
        cases b <;> rfl
      · rw [if_neg hsum]
        cases b <;> rfl
  · rw [decide_eq_false hk]
    rfl

theorem shifter_logical (n : ℕ) :
    ((BitVec.ofBool false ++ x).sshiftRight n).setWidth 32 = x >>> n := by
  apply BitVec.eq_of_getLsbD_eq
  intro k hk
  rw [getLsbD_shifter, BitVec.getLsbD_ushiftRight, decide_eq_true hk]
  split_ifs with hnk
  · rfl
  · rw [BitVec.getLsbD_of_ge _ _ (Nat.le_of_not_lt hnk)]
    rfl

theorem shifter_arithmetic (n : ℕ) :
    ((BitVec.ofBool (x.getLsbD 31) ++ x).sshiftRight n).setWidth 32 = x.sshiftRight n := by
  apply BitVec.eq_of_getLsbD_eq
  intro k hk
  rw [getLsbD_shifter, BitVec.getLsbD_sshiftRight, decide_eq_true hk,
    decide_eq_false (Nat.not_le_of_lt hk), BitVec.msb_eq_getLsbD_last]
  rfl

theorem shifter_left (n : ℕ) :
    (((BitVec.ofBool false ++ x.reverse).sshiftRight n).setWidth 32).reverse = x <<< n := by
  apply BitVec.eq_of_getLsbD_eq
  intro k hk
  rw [shifter_logical, BitVec.getLsbD_reverse, BitVec.getMsbD_eq_getLsbD,
    BitVec.getLsbD_ushiftRight, BitVec.getLsbD_reverse, BitVec.getMsbD_eq_getLsbD,
    BitVec.getLsbD_shiftLeft, decide_eq_true hk]
  by_cases hn : k < n
  · rw [decide_eq_true hn]
    have hge : ¬n + (32 - 1 - k) < 32 := by omega
    rw [decide_eq_false hge]
    rfl
  · have hlt : n + (32 - 1 - k) < 32 := by omega
    have hsub : 32 - 1 - (n + (32 - 1 - k)) = k - n := by omega
    rw [decide_eq_false hn, decide_eq_true hlt, hsub]
    rfl

end Words

end Filestick.FemtoRV32
