import Filestick.Lib.Riscv
import Filestick.Rtl.FemtoRV32
import Mathlib.Tactic.IntervalCases

/-!
# The decompressor expands the compressed instructions

* `field_op` and the lemmas beside it: the fields of a compressed instruction.
* `rFormat`, `iFormat`, `uFormat`, `bFormat`: the lines of the decompressor have the formats of the
  instruction set; `addImm` and the lemmas beside it: their immediates.
* `decompressor_encode`: the decompressor takes each compressed instruction to the one that it
  stands for, whatever the other half of the word holds.
* `decompressor_long`: it leaves the others as they are.
-/

namespace Filestick

open Riscv

theorem getLsbD_spread (c : BitVec 32) (i n k : ℕ) :
    (spread c i n).getLsbD k = (decide (k < n) && c.getLsbD i) := by
  unfold spread
  cases c.getLsbD i <;> simp

/-! ### Fields -/

theorem field_append (hi lo : BitVec 16) {a b : ℕ} (ha : a < 16) (hb : b ≤ a) :
    field (hi ++ lo) a b = lo.extractLsb' b (a - b + 1) :=
  BitVec.extractLsb'_append_eq_of_add_le (by omega)

section Fields

variable (hi : BitVec 16) (c : Compressed)

theorem field_op : field (hi ++ c.encode) 1 0 = c.slots.op := by
  rw [field_append _ _ (by decide) (by decide)]
  exact BitVec.extractLsb'_append_eq_right

theorem field_low : field (hi ++ c.encode) 6 2 = c.slots.low := by
  rw [field_append _ _ (by decide) (by decide), Compressed.encode]
  simp (disch := decide) only [BitVec.extractLsb'_append_eq_of_le]
  exact BitVec.extractLsb'_append_eq_right

theorem field_high : field (hi ++ c.encode) 11 7 = c.slots.high := by
  rw [field_append _ _ (by decide) (by decide), Compressed.encode]
  simp (disch := decide) only [BitVec.extractLsb'_append_eq_of_le]
  exact BitVec.extractLsb'_append_eq_right

theorem field_b : field (hi ++ c.encode) 12 12 = c.slots.b := by
  rw [field_append _ _ (by decide) (by decide), Compressed.encode]
  simp (disch := decide) only [BitVec.extractLsb'_append_eq_of_le]
  exact BitVec.extractLsb'_append_eq_right

theorem field_funct3 : field (hi ++ c.encode) 15 13 = c.slots.funct3 := by
  rw [field_append _ _ (by decide) (by decide), Compressed.encode]
  simp (disch := decide) only [BitVec.extractLsb'_append_eq_of_le]
  exact BitVec.extractLsb'_eq_self

theorem field_high_top : field (hi ++ c.encode) 11 10 = c.slots.high.extractLsb' 3 2 := by
  rw [field_append _ _ (by decide) (by decide), Compressed.encode]
  simp (disch := decide) only [BitVec.extractLsb'_append_eq_of_le]
  exact BitVec.extractLsb'_append_eq_of_add_le (by decide)

theorem field_low_top : field (hi ++ c.encode) 6 5 = c.slots.low.extractLsb' 3 2 := by
  rw [field_append _ _ (by decide) (by decide), Compressed.encode]
  simp (disch := decide) only [BitVec.extractLsb'_append_eq_of_le]
  exact BitVec.extractLsb'_append_eq_of_add_le (by decide)

theorem field_high_reg : field (hi ++ c.encode) 9 7 = c.slots.high.extractLsb' 0 3 := by
  rw [field_append _ _ (by decide) (by decide), Compressed.encode]
  simp (disch := decide) only [BitVec.extractLsb'_append_eq_of_le]
  exact BitVec.extractLsb'_append_eq_of_add_le (by decide)

theorem field_low_reg : field (hi ++ c.encode) 4 2 = c.slots.low.extractLsb' 0 3 := by
  rw [field_append _ _ (by decide) (by decide), Compressed.encode]
  simp (disch := decide) only [BitVec.extractLsb'_append_eq_of_le]
  exact BitVec.extractLsb'_append_eq_of_add_le (by decide)

end Fields

/-- An immediate other than 0 is not the illegal instruction. -/
theorem field_addi4spn (hi : BitVec 16) (rd : BitVec 3) {imm : BitVec 8} (himm : imm ≠ 0#8) :
    field (hi ++ (Compressed.addi4spn rd imm).encode) 12 5 ≠ 0#8 := by
  intro hzero
  rw [field_append _ _ (by decide) (by decide)] at hzero
  have hbit (k : ℕ) := congrArg (fun y : BitVec 8 => y.getLsbD k) hzero
  simp only [Compressed.encode, Compressed.slots, bits, BitVec.getLsbD_append,
    BitVec.getLsbD_extractLsb'] at hbit
  apply himm
  apply BitVec.eq_of_getLsbD_eq
  intro k hk
  -- the places of the bits of the immediate
  interval_cases k
  · simpa using hbit 1
  · simpa using hbit 0
  · simpa using hbit 6
  · simpa using hbit 7
  · simpa using hbit 2
  · simpa using hbit 3
  · simpa using hbit 4
  · simpa using hbit 5

/-! ### Formats -/

section Formats

variable (imm : BitVec 12) (funct7 : BitVec 7) (rs2 rs1 rd : Reg) (funct3 : BitVec 3)
  (opcode : BitVec 5)

theorem rFormat : (funct7 ++ rs2 ++ rs1 ++ funct3 ++ rd ++ (opcode ++ 3#2 : BitVec 7) : BitVec 32) =
    slots funct7 rs2 rs1 funct3 rd opcode ++ 3#2 := by
  apply BitVec.eq_of_getLsbD_eq
  intro k hk
  simp only [slots, BitVec.getLsbD_append]
  interval_cases k <;> simp

theorem iFormat : (imm ++ rs1 ++ funct3 ++ rd ++ (opcode ++ 3#2 : BitVec 7) : BitVec 32) =
    iSlots imm rs1 funct3 rd opcode ++ 3#2 := by
  apply BitVec.eq_of_getLsbD_eq
  intro k hk
  simp only [iSlots, slots, BitVec.getLsbD_append, BitVec.getLsbD_extractLsb']
  interval_cases k <;> simp

theorem uFormat (imm : BitVec 20) : (imm ++ rd ++ (opcode ++ 3#2 : BitVec 7) : BitVec 32) =
    uSlots imm rd opcode ++ 3#2 := by
  apply BitVec.eq_of_getLsbD_eq
  intro k hk
  simp only [uSlots, slots, BitVec.getLsbD_append, BitVec.getLsbD_extractLsb']
  interval_cases k <;> simp

theorem bFormat :
    ((imm ++ 0#1).extractLsb 12 12 ++ (imm ++ 0#1).extractLsb 10 5 ++ rs2 ++ rs1 ++ funct3 ++
      (imm ++ 0#1).extractLsb 4 1 ++ (imm ++ 0#1).extractLsb 11 11 ++
      (opcode ++ 3#2 : BitVec 7) : BitVec 32) =
    slots (imm.extractLsb' 11 1 ++ imm.extractLsb' 4 6) rs2 rs1 funct3
      (imm.extractLsb' 0 4 ++ imm.extractLsb' 10 1) opcode ++ 3#2 := by
  apply BitVec.eq_of_getLsbD_eq
  intro k hk
  simp only [slots, BitVec.extractLsb, BitVec.getLsbD_append, BitVec.getLsbD_extractLsb']
  interval_cases k <;> simp

end Formats

/-! ### Immediates -/

section Immediates

variable (hi : BitVec 16)

theorem addImm {c : Compressed} {imm : BitVec 6} (hb : c.slots.b = bits imm 5 5)
    (hlow : c.slots.low = bits imm 4 0) :
    (spread (hi ++ c.encode) 12 7 ++ field (hi ++ c.encode) 6 2 : BitVec 12) =
      imm.signExtend 12 := by
  rw [field_low, hlow]
  apply BitVec.eq_of_getLsbD_eq
  intro k hk
  simp only [bits, Compressed.encode, hb, getLsbD_spread, BitVec.getLsbD_append,
    BitVec.getLsbD_extractLsb', BitVec.getLsbD_signExtend, BitVec.msb_eq_getLsbD_last]
  interval_cases k <;> simp

theorem luiImm (rd : Reg) (imm : BitVec 6) {x : BitVec 32}
    (hx : hi ++ (Compressed.lui rd imm).encode = x) :
    (spread x 12 15 ++ field x 6 2 ++ 0#12 : BitVec 32).extractLsb 31 12 =
      imm.signExtend 20 := by
  subst hx
  apply BitVec.eq_of_getLsbD_eq
  intro k hk
  simp only [field, bits, Compressed.encode, Compressed.slots, getLsbD_spread,
    BitVec.getLsbD_signExtend, BitVec.msb_eq_getLsbD_last, BitVec.extractLsb,
    BitVec.getLsbD_append, BitVec.getLsbD_extractLsb']
  interval_cases k <;> simp

theorem addi4spnImm (rd : BitVec 3) (imm : BitVec 8) {x : BitVec 32}
    (hx : hi ++ (Compressed.addi4spn rd imm).encode = x) :
    (0#2 ++ field x 10 7 ++ field x 12 11 ++ field x 5 5 ++ field x 6 6 ++ 0#2 : BitVec 12) =
      0#2 ++ imm ++ 0#2 := by
  subst hx
  apply BitVec.eq_of_getLsbD_eq
  intro k hk
  simp only [field, bits, Compressed.encode, Compressed.slots, BitVec.extractLsb,
    BitVec.getLsbD_append, BitVec.getLsbD_extractLsb']
  interval_cases k <;> simp

theorem addi16spImm (imm : BitVec 6) {x : BitVec 32}
    (hx : hi ++ (Compressed.addi16sp imm).encode = x) :
    (spread x 12 3 ++ field x 4 3 ++ field x 5 5 ++ field x 2 2 ++ field x 6 6 ++ 0#4 : BitVec 12) =
      (imm ++ 0#4).signExtend 12 := by
  subst hx
  apply BitVec.eq_of_getLsbD_eq
  intro k hk
  simp only [field, bits, Compressed.encode, Compressed.slots, getLsbD_spread,
    BitVec.getLsbD_signExtend, BitVec.msb_eq_getLsbD_last, BitVec.extractLsb,
    BitVec.getLsbD_append, BitVec.getLsbD_extractLsb']
  interval_cases k <;> simp

theorem lwswImm (funct3 rs1 r : BitVec 3) (imm : BitVec 5) {c : Compressed}
    (hc : c.slots = clSlots funct3 rs1 r imm) {x : BitVec 32}
    (hx : hi ++ c.encode = x) :
    (0#5 ++ field x 5 5 ++ field x 12 10 ++ field x 6 6 ++ 0#2 : BitVec 12) =
      0#5 ++ imm ++ 0#2 := by
  subst hx
  apply BitVec.eq_of_getLsbD_eq
  intro k hk
  simp only [field, bits, Compressed.encode, hc, clSlots, BitVec.extractLsb,
    BitVec.getLsbD_append, BitVec.getLsbD_extractLsb']
  interval_cases k <;> simp

theorem lwspImm (rd : Reg) (imm : BitVec 6) {x : BitVec 32}
    (hx : hi ++ (Compressed.lwsp rd imm).encode = x) :
    (0#4 ++ field x 3 2 ++ field x 12 12 ++ field x 6 4 ++ 0#2 : BitVec 12) =
      0#4 ++ imm ++ 0#2 := by
  subst hx
  apply BitVec.eq_of_getLsbD_eq
  intro k hk
  simp only [field, bits, Compressed.encode, Compressed.slots, BitVec.extractLsb,
    BitVec.getLsbD_append, BitVec.getLsbD_extractLsb']
  interval_cases k <;> simp

theorem swspImm (rs2 : Reg) (imm : BitVec 6) {x : BitVec 32}
    (hx : hi ++ (Compressed.swsp rs2 imm).encode = x) :
    (0#4 ++ field x 8 7 ++ field x 12 9 ++ 0#2 : BitVec 12) =
      0#4 ++ imm ++ 0#2 := by
  subst hx
  apply BitVec.eq_of_getLsbD_eq
  intro k hk
  simp only [field, bits, Compressed.encode, Compressed.slots, BitVec.extractLsb,
    BitVec.getLsbD_append, BitVec.getLsbD_extractLsb']
  interval_cases k <;> simp

theorem bImm (funct3 rs1 : BitVec 3) (imm : BitVec 8) {c : Compressed}
    (hc : c.slots = cbSlots funct3 rs1 imm) {x : BitVec 32}
    (hx : hi ++ c.encode = x) :
    (spread x 12 5 ++ field x 6 5 ++ field x 2 2 ++ field x 11 10 ++ field x 4 3 ++ 0#1 :
      BitVec 13) = imm.signExtend 12 ++ 0#1 := by
  subst hx
  apply BitVec.eq_of_getLsbD_eq
  intro k hk
  simp only [field, bits, Compressed.encode, hc, cbSlots, getLsbD_spread,
    BitVec.getLsbD_signExtend, BitVec.msb_eq_getLsbD_last, BitVec.extractLsb,
    BitVec.getLsbD_append, BitVec.getLsbD_extractLsb']
  interval_cases k <;> simp

theorem jalImm (funct3 : BitVec 3) (imm : BitVec 11) {c : Compressed}
    (hc : c.slots = cjSlots funct3 imm) {x : BitVec 32}
    (hx : hi ++ c.encode = x) :
    (spread x 12 10 ++ field x 8 8 ++ field x 10 9 ++ field x 6 6 ++ field x 7 7 ++ field x 2 2 ++
      field x 11 11 ++ field x 5 3 ++ 0#1 : BitVec 21) =
      imm.signExtend 20 ++ 0#1 := by
  subst hx
  apply BitVec.eq_of_getLsbD_eq
  intro k hk
  simp only [field, bits, Compressed.encode, hc, cjSlots, getLsbD_spread,
    BitVec.getLsbD_signExtend, BitVec.msb_eq_getLsbD_last, BitVec.extractLsb,
    BitVec.getLsbD_append, BitVec.getLsbD_extractLsb']
  interval_cases k <;> simp

/-- The bits of an offset, as `jal` has them and as a branch has them. -/
theorem jalBits (imm : BitVec 20) :
    ((imm ++ 0#1).extractLsb 20 20 ++ (imm ++ 0#1).extractLsb 10 1 ++
      (imm ++ 0#1).extractLsb 11 11 ++ (imm ++ 0#1).extractLsb 19 12 : BitVec 20) =
      imm.extractLsb' 19 1 ++ imm.extractLsb' 0 10 ++ imm.extractLsb' 10 1 ++
        imm.extractLsb' 11 8 := by
  apply BitVec.eq_of_getLsbD_eq
  intro k hk
  simp only [BitVec.extractLsb, BitVec.getLsbD_append, BitVec.getLsbD_extractLsb']
  interval_cases k <;> simp

end Immediates

/-! ### The lines of the decompressor -/

/-- **A compressed instruction** is expanded to the one that it stands for. -/
theorem decompressor_encode (hi : BitVec 16) {c : Compressed} (hc : c.Valid) :
    decompressor (hi ++ c.encode) = c.expand.encode := by
  have hop := field_op hi c
  have hfunct3 := field_funct3 hi c
  cases c with
  | addi4spn rd imm =>
    have hne := field_addi4spn hi rd hc
    have hrd := (field_low_reg hi (.addi4spn rd imm)).trans BitVec.extractLsb'_append_eq_right
    have himm := addi4spnImm hi rd imm rfl
    generalize hi ++ Compressed.encode _ = x at hop hfunct3 hrd himm hne ⊢
    simp only [Compressed.slots] at hop hfunct3
    simp only [decompressor, hop, hfunct3, hrd, hne, false_and, BitVec.reduceEq, if_false, if_true]
    rw [himm]
    exact iFormat _ _ _ _ 4#5
  | lw rd rs1 imm =>
    have hrs1 := (field_high_reg hi (.lw rd rs1 imm)).trans BitVec.extractLsb'_append_eq_right
    have hrd := (field_low_reg hi (.lw rd rs1 imm)).trans BitVec.extractLsb'_append_eq_right
    have himm := lwswImm hi _ _ _ _ (c := .lw rd rs1 imm) rfl rfl
    generalize hi ++ Compressed.encode _ = x at hop hfunct3 hrs1 hrd himm ⊢
    simp only [Compressed.slots, clSlots] at hop hfunct3
    simp only [decompressor, hop, hfunct3, hrs1, hrd, BitVec.reduceEq, if_false, if_true]
    rw [himm]
    exact iFormat _ _ _ _ 0#5
  | sw rs1 rs2 imm =>
    have hrs1 := (field_high_reg hi (.sw rs1 rs2 imm)).trans BitVec.extractLsb'_append_eq_right
    have hrs2 := (field_low_reg hi (.sw rs1 rs2 imm)).trans BitVec.extractLsb'_append_eq_right
    have himm := lwswImm hi _ _ _ _ (c := .sw rs1 rs2 imm) rfl rfl
    generalize hi ++ Compressed.encode _ = x at hop hfunct3 hrs1 hrs2 himm ⊢
    simp only [Compressed.slots, clSlots] at hop hfunct3
    simp only [decompressor, hop, hfunct3, hrs1, hrs2, BitVec.reduceEq, if_false, if_true]
    rw [himm]
    exact rFormat _ _ _ _ _ 8#5
  | addi rd imm =>
    have hrd : field _ 11 7 = rd := field_high hi (.addi rd imm)
    have himm := addImm hi (c := .addi rd imm) rfl rfl
    generalize hi ++ Compressed.encode _ = x at hop hfunct3 hrd himm ⊢
    simp only [Compressed.slots] at hop hfunct3
    simp only [decompressor, hop, hfunct3, hrd, BitVec.reduceEq, if_false, if_true]
    rw [himm]
    exact iFormat _ _ _ _ 4#5
  | jal imm =>
    have himm := jalImm hi _ _ (c := .jal imm) rfl rfl
    generalize hi ++ Compressed.encode _ = x at hop hfunct3 himm ⊢
    simp only [Compressed.slots, cjSlots] at hop hfunct3
    simp only [decompressor, hop, hfunct3, BitVec.reduceEq, if_false, if_true]
    rw [himm, jalBits]
    exact uFormat _ 27#5 _
  | li rd imm =>
    have hrd : field _ 11 7 = rd := field_high hi (.li rd imm)
    have himm := addImm hi (c := .li rd imm) rfl rfl
    generalize hi ++ Compressed.encode _ = x at hop hfunct3 hrd himm ⊢
    simp only [Compressed.slots] at hop hfunct3
    simp only [decompressor, hop, hfunct3, hrd, BitVec.reduceEq, if_false, if_true]
    rw [himm]
    exact iFormat _ _ _ _ 4#5
  | addi16sp imm =>
    have hrd : field _ 11 7 = 2#5 := field_high hi (.addi16sp imm)
    have himm := addi16spImm hi imm rfl
    generalize hi ++ Compressed.encode _ = x at hop hfunct3 hrd himm ⊢
    simp only [Compressed.slots] at hop hfunct3
    simp only [decompressor, hop, hfunct3, hrd, BitVec.reduceEq, if_false, if_true]
    rw [himm]
    exact iFormat _ _ _ _ 4#5
  | lui rd imm =>
    have hrd : field _ 11 7 = rd := field_high hi (.lui rd imm)
    have himm := luiImm hi rd imm rfl
    generalize hi ++ Compressed.encode _ = x at hop hfunct3 hrd himm ⊢
    simp only [Compressed.slots] at hop hfunct3
    simp only [decompressor, hop, hfunct3, hrd, BitVec.reduceEq, if_false, if_true]
    rw [if_neg hc, himm]
    exact uFormat _ 13#5 _
  | srli rd shamt =>
    have htop := (field_high_top hi (.srli rd shamt)).trans BitVec.extractLsb'_append_eq_left
    have hrd := (field_high_reg hi (.srli rd shamt)).trans BitVec.extractLsb'_append_eq_right
    have hlow : field _ 6 2 = shamt := field_low hi (.srli rd shamt)
    generalize hi ++ Compressed.encode _ = x at hop hfunct3 htop hrd hlow ⊢
    simp only [Compressed.slots] at hop hfunct3
    simp only [decompressor, hop, hfunct3, htop, hrd, hlow, BitVec.reduceEq, if_false, if_true]
    exact rFormat _ _ _ _ _ 4#5
  | srai rd shamt =>
    have htop := (field_high_top hi (.srai rd shamt)).trans BitVec.extractLsb'_append_eq_left
    have hrd := (field_high_reg hi (.srai rd shamt)).trans BitVec.extractLsb'_append_eq_right
    have hlow : field _ 6 2 = shamt := field_low hi (.srai rd shamt)
    generalize hi ++ Compressed.encode _ = x at hop hfunct3 htop hrd hlow ⊢
    simp only [Compressed.slots] at hop hfunct3
    simp only [decompressor, hop, hfunct3, htop, hrd, hlow, BitVec.reduceEq, if_false, if_true]
    exact rFormat _ _ _ _ _ 4#5
  | andi rd imm =>
    have htop := (field_high_top hi (.andi rd imm)).trans BitVec.extractLsb'_append_eq_left
    have hrd := (field_high_reg hi (.andi rd imm)).trans BitVec.extractLsb'_append_eq_right
    have himm := addImm hi (c := .andi rd imm) rfl rfl
    generalize hi ++ Compressed.encode _ = x at hop hfunct3 htop hrd himm ⊢
    simp only [Compressed.slots] at hop hfunct3
    simp only [decompressor, hop, hfunct3, htop, hrd, BitVec.reduceEq, if_false, if_true]
    rw [himm]
    exact iFormat _ _ _ _ 4#5
  | sub rd rs2 =>
    have hb : field _ 12 12 = 0#1 := field_b hi (.sub rd rs2)
    have htop := (field_high_top hi (.sub rd rs2)).trans BitVec.extractLsb'_append_eq_left
    have hrd := (field_high_reg hi (.sub rd rs2)).trans BitVec.extractLsb'_append_eq_right
    have hltop := (field_low_top hi (.sub rd rs2)).trans BitVec.extractLsb'_append_eq_left
    have hrs2 := (field_low_reg hi (.sub rd rs2)).trans BitVec.extractLsb'_append_eq_right
    generalize hi ++ Compressed.encode _ = x at hop hfunct3 hb htop hrd hltop hrs2 ⊢
    simp only [Compressed.slots] at hop hfunct3
    simp only [decompressor, hop, hfunct3, hb, htop, hrd, hltop, hrs2, BitVec.reduceEq, if_false,
      if_true]
    exact rFormat _ _ _ _ _ 12#5
  | xor rd rs2 =>
    have hb : field _ 12 12 = 0#1 := field_b hi (.xor rd rs2)
    have htop := (field_high_top hi (.xor rd rs2)).trans BitVec.extractLsb'_append_eq_left
    have hrd := (field_high_reg hi (.xor rd rs2)).trans BitVec.extractLsb'_append_eq_right
    have hltop := (field_low_top hi (.xor rd rs2)).trans BitVec.extractLsb'_append_eq_left
    have hrs2 := (field_low_reg hi (.xor rd rs2)).trans BitVec.extractLsb'_append_eq_right
    generalize hi ++ Compressed.encode _ = x at hop hfunct3 hb htop hrd hltop hrs2 ⊢
    simp only [Compressed.slots] at hop hfunct3
    simp only [decompressor, hop, hfunct3, hb, htop, hrd, hltop, hrs2, BitVec.reduceEq, if_false,
      if_true]
    exact rFormat _ _ _ _ _ 12#5
  | or rd rs2 =>
    have hb : field _ 12 12 = 0#1 := field_b hi (.or rd rs2)
    have htop := (field_high_top hi (.or rd rs2)).trans BitVec.extractLsb'_append_eq_left
    have hrd := (field_high_reg hi (.or rd rs2)).trans BitVec.extractLsb'_append_eq_right
    have hltop := (field_low_top hi (.or rd rs2)).trans BitVec.extractLsb'_append_eq_left
    have hrs2 := (field_low_reg hi (.or rd rs2)).trans BitVec.extractLsb'_append_eq_right
    generalize hi ++ Compressed.encode _ = x at hop hfunct3 hb htop hrd hltop hrs2 ⊢
    simp only [Compressed.slots] at hop hfunct3
    simp only [decompressor, hop, hfunct3, hb, htop, hrd, hltop, hrs2, BitVec.reduceEq, if_false,
      if_true]
    exact rFormat _ _ _ _ _ 12#5
  | and rd rs2 =>
    have hb : field _ 12 12 = 0#1 := field_b hi (.and rd rs2)
    have htop := (field_high_top hi (.and rd rs2)).trans BitVec.extractLsb'_append_eq_left
    have hrd := (field_high_reg hi (.and rd rs2)).trans BitVec.extractLsb'_append_eq_right
    have hltop := (field_low_top hi (.and rd rs2)).trans BitVec.extractLsb'_append_eq_left
    have hrs2 := (field_low_reg hi (.and rd rs2)).trans BitVec.extractLsb'_append_eq_right
    generalize hi ++ Compressed.encode _ = x at hop hfunct3 hb htop hrd hltop hrs2 ⊢
    simp only [Compressed.slots] at hop hfunct3
    simp only [decompressor, hop, hfunct3, hb, htop, hrd, hltop, hrs2, BitVec.reduceEq, if_false,
      if_true]
    exact rFormat _ _ _ _ _ 12#5
  | j imm =>
    have himm := jalImm hi _ _ (c := .j imm) rfl rfl
    generalize hi ++ Compressed.encode _ = x at hop hfunct3 himm ⊢
    simp only [Compressed.slots, cjSlots] at hop hfunct3
    simp only [decompressor, hop, hfunct3, BitVec.reduceEq, if_false, if_true]
    rw [himm, jalBits]
    exact uFormat _ 27#5 _
  | beqz rs1 imm =>
    have hrs1 := (field_high_reg hi (.beqz rs1 imm)).trans BitVec.extractLsb'_append_eq_right
    have himm := bImm hi _ _ _ (c := .beqz rs1 imm) rfl rfl
    generalize hi ++ Compressed.encode _ = x at hop hfunct3 hrs1 himm ⊢
    simp only [Compressed.slots, cbSlots] at hop hfunct3
    simp only [decompressor, hop, hfunct3, hrs1, BitVec.reduceEq, if_false, if_true]
    rw [himm]
    exact bFormat _ _ _ _ 24#5
  | bnez rs1 imm =>
    have hrs1 := (field_high_reg hi (.bnez rs1 imm)).trans BitVec.extractLsb'_append_eq_right
    have himm := bImm hi _ _ _ (c := .bnez rs1 imm) rfl rfl
    generalize hi ++ Compressed.encode _ = x at hop hfunct3 hrs1 himm ⊢
    simp only [Compressed.slots, cbSlots] at hop hfunct3
    simp only [decompressor, hop, hfunct3, hrs1, BitVec.reduceEq, if_false, if_true]
    rw [himm]
    exact bFormat _ _ _ _ 24#5
  | slli rd shamt =>
    have hhigh : field _ 11 7 = rd := field_high hi (.slli rd shamt)
    have hlow : field _ 6 2 = shamt := field_low hi (.slli rd shamt)
    generalize hi ++ Compressed.encode _ = x at hop hfunct3 hhigh hlow ⊢
    simp only [Compressed.slots] at hop hfunct3
    simp only [decompressor, hop, hfunct3, hhigh, hlow, BitVec.reduceEq, if_false, if_true]
    exact rFormat _ _ _ _ _ 4#5
  | lwsp rd imm =>
    have hrd : field _ 11 7 = rd := field_high hi (.lwsp rd imm)
    have himm := lwspImm hi rd imm rfl
    generalize hi ++ Compressed.encode _ = x at hop hfunct3 hrd himm ⊢
    simp only [Compressed.slots] at hop hfunct3
    simp only [decompressor, hop, hfunct3, hrd, BitVec.reduceEq, if_false, if_true]
    rw [himm]
    exact iFormat _ _ _ _ 0#5
  | jr rs1 =>
    have hb : field _ 12 12 = 0#1 := field_b hi (.jr rs1)
    have hrs1 : field _ 11 7 = rs1 := field_high hi (.jr rs1)
    have hlow : field _ 6 2 = 0#5 := field_low hi (.jr rs1)
    generalize hi ++ Compressed.encode _ = x at hop hfunct3 hb hrs1 hlow ⊢
    simp only [Compressed.slots] at hop hfunct3
    simp only [decompressor, hop, hfunct3, hb, hrs1, hlow, BitVec.reduceEq, if_false, if_true]
    exact iFormat _ _ _ _ 25#5
  | mv rd rs2 =>
    have hb : field _ 12 12 = 0#1 := field_b hi (.mv rd rs2)
    have hrd : field _ 11 7 = rd := field_high hi (.mv rd rs2)
    have hrs2 : field _ 6 2 = rs2 := field_low hi (.mv rd rs2)
    generalize hi ++ Compressed.encode _ = x at hop hfunct3 hb hrd hrs2 ⊢
    simp only [Compressed.slots] at hop hfunct3
    simp only [decompressor, hop, hfunct3, hb, hrd, hrs2, BitVec.reduceEq, if_false, if_true]
    rw [if_neg hc]
    exact rFormat _ _ _ _ _ 12#5
  | ebreak =>
    have hb : field _ 12 12 = 1#1 := field_b hi .ebreak
    have hhigh : field _ 11 7 = 0#5 := field_high hi .ebreak
    have hlow : field _ 6 2 = 0#5 := field_low hi .ebreak
    generalize hi ++ Compressed.encode _ = x at hop hfunct3 hb hhigh hlow ⊢
    simp only [Compressed.slots] at hop hfunct3
    simp only [decompressor, hop, hfunct3, hb, hhigh, hlow, and_self, BitVec.reduceEq, if_false,
      if_true]
    rfl
  | jalr rs1 =>
    have hb : field _ 12 12 = 1#1 := field_b hi (.jalr rs1)
    have hrs1 : field _ 11 7 = rs1 := field_high hi (.jalr rs1)
    have hlow : field _ 6 2 = 0#5 := field_low hi (.jalr rs1)
    generalize hi ++ Compressed.encode _ = x at hop hfunct3 hb hrs1 hlow ⊢
    simp only [Compressed.slots] at hop hfunct3
    simp only [decompressor, hop, hfunct3, hb, hrs1, hlow, and_true, BitVec.reduceEq, if_false,
      if_true]
    rw [if_neg hc]
    exact iFormat _ _ _ _ 25#5
  | add rd rs2 =>
    have hb : field _ 12 12 = 1#1 := field_b hi (.add rd rs2)
    have hrd : field _ 11 7 = rd := field_high hi (.add rd rs2)
    have hrs2 : field _ 6 2 = rs2 := field_low hi (.add rd rs2)
    generalize hi ++ Compressed.encode _ = x at hop hfunct3 hb hrd hrs2 ⊢
    simp only [Compressed.slots] at hop hfunct3
    simp only [decompressor, hop, hfunct3, hb, hrd, hrs2, BitVec.reduceEq, if_false, if_true]
    rw [if_neg fun h => hc h.2, if_neg hc]
    exact rFormat _ _ _ _ _ 12#5
  | swsp rs2 imm =>
    have hrs2 : field _ 6 2 = rs2 := field_low hi (.swsp rs2 imm)
    have himm := swspImm hi rs2 imm rfl
    generalize hi ++ Compressed.encode _ = x at hop hfunct3 hrs2 himm ⊢
    simp only [Compressed.slots] at hop hfunct3
    simp only [decompressor, hop, hfunct3, hrs2, BitVec.reduceEq, if_false, if_true]
    rw [himm]
    exact rFormat _ _ _ _ _ 8#5

/-- Another instruction is left as it is. -/
theorem decompressor_long (i : Instr) : decompressor i.encode = i.encode := by
  have hop : field i.encode 1 0 = 3#2 := BitVec.extractLsb'_append_eq_right
  unfold decompressor
  exact if_pos hop

end Filestick
