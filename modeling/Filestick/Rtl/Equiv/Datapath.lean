import Filestick.Rtl.Equiv.Decode
import Filestick.Rtl.Equiv.Divider

/-!
# The data path

* `predicate_eq`, `aluOutBase_opImm`, `aluOutBase_shift`, `aluOutBase_op`, `aluOutMuldiv_mul`: the
  results of the ALU are those of the instruction set.
* `loadData_eq`: what a load leaves of the word on the bus.
* `written`: the bytes that a clock writes; `written_eq` is for an aligned store.
-/

namespace Filestick.FemtoRV32

open Riscv

/-! ### The operands of the multiplier -/

section Words

variable (x y : Word)

theorem getLsbD_extend (b : Bool) (k : ℕ) :
    ((BitVec.ofBool b ++ x).signExtend 64).getLsbD k =
      (decide (k < 64) && if k < 32 then x.getLsbD k else b) := by
  have hmsb : (BitVec.ofBool b ++ x).msb = b := by
    rw [BitVec.msb_append]
    cases b <;> rfl
  rw [BitVec.getLsbD_signExtend, BitVec.getLsbD_append, hmsb]
  by_cases h32 : k < 32
  · rw [if_pos h32, if_pos h32, if_pos (by omega)]
  · rw [if_neg h32, if_neg h32]
    by_cases h33 : k < 1 + 32
    · have hk : k - 32 = 0 := by omega
      rw [if_pos h33, hk]
      cases b <;> rfl
    · rw [if_neg h33]

theorem extend_low (b : Bool) : ((BitVec.ofBool b ++ x).signExtend 64).setWidth 32 = x := by
  apply BitVec.eq_of_getLsbD_eq
  intro k hk
  rw [BitVec.getLsbD_setWidth, getLsbD_extend, if_pos hk, decide_eq_true hk,
    decide_eq_true (by omega : k < 64), Bool.true_and, Bool.true_and]

theorem extend_signed : (BitVec.ofBool (x.getLsbD 31) ++ x).signExtend 64 = x.signExtend 64 := by
  apply BitVec.eq_of_getLsbD_eq
  intro k hk
  rw [getLsbD_extend, BitVec.getLsbD_signExtend, BitVec.msb_eq_getLsbD_last]

theorem extend_unsigned : (BitVec.ofBool false ++ x).signExtend 64 = x.setWidth 64 := by
  apply BitVec.eq_of_getLsbD_eq
  intro k hk
  rw [getLsbD_extend, BitVec.getLsbD_setWidth]
  split_ifs with h32
  · rfl
  · rw [BitVec.getLsbD_of_ge x k (Nat.le_of_not_lt h32)]

end Words

variable {s : FemtoRV32} {i : CpuInput}

/-! ### The ALU -/

theorem aluMinus_low : s.aluMinus.setWidth 32 = s.aluIn1 - s.aluIn2 := minus_low _ _

theorem ltu_eq : s.ltu = s.aluIn1.ult s.aluIn2 := minus_high _ _

theorem lt_eq : s.lt = s.aluIn1.slt s.aluIn2 := by
  have hhigh : s.aluMinus.getLsbD 32 = s.aluIn1.ult s.aluIn2 := minus_high _ _
  rw [lt, hhigh, slt_eq_ite]

theorem eq_eq : s.eq = (s.aluIn1 == s.aluIn2) := by
  rw [eq, aluMinus_low, Bool.eq_iff_iff, beq_iff_eq, beq_iff_eq]
  constructor
  · intro h
    rw [← BitVec.sub_add_cancel s.aluIn1 s.aluIn2, h, BitVec.zero_add]
  · intro h
    rw [h, BitVec.sub_self]

theorem setWidth_ofBool (b : Bool) : (BitVec.ofBool b).setWidth 32 = if b then 1#32 else 0#32 := by
  cases b <;> rfl

theorem predicate_eq {op : Branch} (h : s.funct3 = op.funct3) :
    s.predicate = op.taken s.aluIn1 s.aluIn2 := by
  rw [predicate, h, eq_eq, lt_eq, ltu_eq]
  cases op <;> rfl

theorem aluOutBase_opImm {op : ImmOp} (h : s.funct3 = op.funct3) (h5 : s.ins.getLsbD 5 = false) :
    s.aluOutBase = op.eval s.aluIn1 s.aluIn2 := by
  rw [aluOutBase, h, h5, Bool.and_false, setWidth_ofBool, setWidth_ofBool, lt_eq, ltu_eq]
  cases op <;> rfl

theorem aluOutBase_shift {op : ShiftOp} (h : s.funct3 = op.funct3)
    (h30 : s.ins.getLsbD 30 = op.funct7.getLsbD 5) :
    s.aluOutBase = op.eval s.aluIn1 (s.aluIn2.setWidth 5) := by
  have hlow : s.aluIn2.extractLsb 4 0 = s.aluIn2.setWidth 5 :=
    (BitVec.setWidth_eq_extractLsb' (by decide)).symm
  cases op with
  | sll =>
    have hin : s.shifterIn = s.aluIn1.reverse := by
      rw [shifterIn, h]
      rfl
    have hout : s.aluOutBase = s.leftshift := by
      rw [aluOutBase, h]
      rfl
    have hfill : s.ins.getLsbD 30 = false := h30
    rw [hout, leftshift, shifter, hfill, Bool.false_and, hin, hlow]
    exact shifter_left _ _
  | srl =>
    have hin : s.shifterIn = s.aluIn1 := by
      rw [shifterIn, h]
      rfl
    have hout : s.aluOutBase = s.shifter := by
      rw [aluOutBase, h]
      rfl
    have hfill : s.ins.getLsbD 30 = false := h30
    rw [hout, shifter, hfill, Bool.false_and, hin, hlow]
    exact shifter_logical _ _
  | sra =>
    have hin : s.shifterIn = s.aluIn1 := by
      rw [shifterIn, h]
      rfl
    have hout : s.aluOutBase = s.shifter := by
      rw [aluOutBase, h]
      rfl
    have hfill : s.ins.getLsbD 30 = true := h30
    rw [hout, shifter, hfill, Bool.true_and, hin, hlow]
    exact shifter_arithmetic _ _

theorem aluOutBase_op {op : Op} (h : s.funct3 = op.funct3) (h5 : s.ins.getLsbD 5 = true)
    (h30 : s.ins.getLsbD 30 = op.funct7.getLsbD 5) :
    s.aluOutBase = op.eval s.aluIn1 s.aluIn2 := by
  cases op with
  | shift op => exact aluOutBase_shift h h30
  | _ =>
    rw [aluOutBase, h, h5, h30, setWidth_ofBool, setWidth_ofBool, lt_eq, ltu_eq, aluMinus_low]
    rfl

theorem aluOutMuldiv_mul {op : MulDiv} (h : s.funct3 = op.funct3) 
    (h14 : s.ins.getLsbD 14 = op.funct3.getLsbD 2) (hmul : op.funct3.getLsbD 2 = false) :
    s.aluOutMuldiv = Hart.muldiv op s.aluIn1 s.aluIn2 := by
  rw [aluOutMuldiv, h14, hmul, if_neg Bool.false_ne_true, multiply, h]
  generalize s.aluIn1 = x
  generalize s.aluIn2 = y
  cases op with
  | mul =>
    show BitVec.extractLsb' 0 32 _ = x * y
    rw [← BitVec.setWidth_eq_extractLsb' (by decide), BitVec.setWidth_mul _ _ (by decide),
      extend_low, extend_low]
  | mulh =>
    show BitVec.extractLsb' 32 32 ((BitVec.ofBool (x.getLsbD 31 && true) ++ x).signExtend 64 *
      (BitVec.ofBool (y.getLsbD 31 && true) ++ y).signExtend 64) = _
    rw [Bool.and_true, Bool.and_true, extend_signed, extend_signed]
    rfl
  | mulhsu =>
    show BitVec.extractLsb' 32 32 ((BitVec.ofBool (x.getLsbD 31 && false) ++ x).signExtend 64 *
      (BitVec.ofBool (y.getLsbD 31 && true) ++ y).signExtend 64) = _
    rw [Bool.and_true, Bool.and_false, extend_signed, extend_unsigned, BitVec.mul_comm]
    rfl
  | mulhu =>
    show BitVec.extractLsb' 32 32 ((BitVec.ofBool (x.getLsbD 31 && false) ++ x).signExtend 64 *
      (BitVec.ofBool (y.getLsbD 31 && false) ++ y).signExtend 64) = _
    rw [Bool.and_false, Bool.and_false, extend_unsigned, extend_unsigned]
    rfl
  | div | divu | rem | remu => exact absurd hmul (by decide)

/-! ### Loads -/

theorem offset_eq : s.loadstoreAddr.setWidth 2 =
    BitVec.ofBool (s.loadstoreAddr.getLsbD 1) ++ BitVec.ofBool (s.loadstoreAddr.getLsbD 0) := by
  apply BitVec.eq_of_getLsbD_eq
  intro k hk
  rw [BitVec.getLsbD_setWidth, BitVec.getLsbD_append]
  interval_cases k <;> simp

theorem byte_half (w : Word) (start : ℕ) {k : ℕ} (hk : k + 8 ≤ 16) :
    (w.extractLsb' start 16).extractLsb' k 8 = w.extractLsb' (start + k) 8 := by
  apply BitVec.eq_of_getLsbD_eq
  intro j hj
  rw [BitVec.getLsbD_extractLsb', BitVec.getLsbD_extractLsb', BitVec.getLsbD_extractLsb',
    decide_eq_true (by omega : k + j < 16), Bool.true_and, Nat.add_assoc]

/-- **Loads**: the byte or the half word is taken out of the word. -/
theorem loadData_eq {op : Load} (hsize : s.ins.extractLsb 13 12 = op.funct3.extractLsb' 0 2)
    (h14 : s.ins.getLsbD 14 = op.funct3.getLsbD 2) :
    s.loadData i = op.ofWord (s.loadstoreAddr.setWidth 2) i.memRdata := by
  have hhalf : s.loadHalfword i = i.memRdata.extractLsb'
      (if (s.loadstoreAddr.setWidth 2).getLsbD 1 then 16 else 0) 16 := by
    rw [loadHalfword, offset_eq]
    cases s.loadstoreAddr.getLsbD 1 <;> cases s.loadstoreAddr.getLsbD 0 <;> rfl
  have hbyte : s.loadByte i =
      i.memRdata.extractLsb' (8 * (s.loadstoreAddr.setWidth 2).toNat) 8 := by
    rw [loadByte, loadHalfword, offset_eq]
    cases s.loadstoreAddr.getLsbD 1 <;> cases s.loadstoreAddr.getLsbD 0 <;>
      exact byte_half _ _ (by decide)
  rw [loadData, memByteAccess, memHalfwordAccess, hsize, h14, hhalf, hbyte]
  cases op <;> rfl

/-! ### Stores -/

/-- The bytes that a clock writes. -/
def written (s : FemtoRV32) (b : BitVec 24) : Option (BitVec 8) :=
  if b.extractLsb' 2 22 = s.memAddr.extractLsb' 2 22 ∧
      s.memWmask.getLsbD (b.setWidth 2).toNat = true then
    some (s.memWdata.extractLsb' (8 * (b.setWidth 2).toNat) 8)
  else none

theorem memWdata_byte (k : BitVec 2) :
    s.memWdata.extractLsb' (8 * k.toNat) 8 =
      s.rs2.extractLsb' (8 * (if s.loadstoreAddr.getLsbD 0 && (k = 1#2 || k = 3#2) then 0
        else if s.loadstoreAddr.getLsbD 1 && (k = 2#2 || k = 3#2) then k.toNat - 2
        else k.toNat)) 8 := by
  have hk : k = 0#2 ∨ k = 1#2 ∨ k = 2#2 ∨ k = 3#2 := by revert k; decide
  unfold memWdata
  rcases hk with rfl | rfl | rfl | rfl <;>
    cases s.loadstoreAddr.getLsbD 0 <;> cases s.loadstoreAddr.getLsbD 1 <;>
    simp (disch := decide) only [BitVec.extractLsb'_append_eq_of_add_le,
      BitVec.extractLsb'_append_eq_of_le] <;>
    exact BitVec.extractLsb'_eq_self

/-- The byte that a clock of an aligned store writes at the offset `k`. -/
theorem lane_eq {op : Store} (hsize : s.ins.extractLsb 13 12 = op.funct3.extractLsb' 0 2)
    (haligned : op.Aligned s.loadstoreAddr) (k : BitVec 2) :
    op.lane (s.loadstoreAddr.setWidth 2) s.rs2 k =
      if s.storeWmask.getLsbD k.toNat then some (s.memWdata.extractLsb' (8 * k.toNat) 8)
      else none := by
  have hk : k = 0#2 ∨ k = 1#2 ∨ k = 2#2 ∨ k = 3#2 := by revert k; decide
  rw [memWdata_byte, storeWmask, memByteAccess, memHalfwordAccess, hsize, offset_eq]
  cases op with
  | sb =>
    generalize s.loadstoreAddr.getLsbD 0 = a0
    generalize s.loadstoreAddr.getLsbD 1 = a1
    rcases hk with rfl | rfl | rfl | rfl <;> cases a0 <;> cases a1 <;> rfl
  | sh =>
    have h0 : s.loadstoreAddr.getLsbD 0 = false := haligned
    rw [h0]
    generalize s.loadstoreAddr.getLsbD 1 = a1
    rcases hk with rfl | rfl | rfl | rfl <;> cases a1 <;> rfl
  | sw =>
    obtain ⟨h0, h1⟩ : s.loadstoreAddr.getLsbD 0 = false ∧ s.loadstoreAddr.getLsbD 1 = false :=
      haligned
    rw [h0, h1]
    rcases hk with rfl | rfl | rfl | rfl <;> rfl

/-- **Stores**: the clock of an aligned store writes what the instruction set asks for. -/
theorem written_eq {op : Store} (haddr : s.memAddr = s.loadstoreAddr)
    (hmask : s.memWmask = s.storeWmask)
    (hsize : s.ins.extractLsb 13 12 = op.funct3.extractLsb' 0 2)
    (haligned : op.Aligned s.loadstoreAddr) : s.written = op.bytes s.loadstoreAddr s.rs2 := by
  funext b
  rw [written, Store.bytes_eq_lane, haddr, hmask]
  by_cases hhigh : b.extractLsb' 2 22 = s.loadstoreAddr.extractLsb' 2 22
  · rw [if_pos hhigh, lane_eq hsize haligned]
    by_cases hbit : s.storeWmask.getLsbD (b.setWidth 2).toNat = true
    · rw [if_pos ⟨hhigh, hbit⟩, if_pos hbit]
    · rw [if_neg fun h => hbit h.2, if_neg hbit]
  · rw [if_neg fun h => hhigh h.1, if_neg hhigh]

end Filestick.FemtoRV32
