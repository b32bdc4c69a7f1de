import Filestick.Rtl.Equiv.Datapath
import Filestick.Rtl.Equiv.FemtoRV32

/-!
# An instruction on the core

`hart` is what a program sees of the registers of the core, and `Ready s i len` says that the core
is about to execute the instruction `i`.

* `system_flags`, `Ready.pcNew_eq`, `Ready.trap_eq`, `Ready.csr_eq`, `Ready.violation_eq`: the wires
  of the core are the functions of `Hart`.
* `Ready.busAccess_eq`: the access of the core is that of the instruction.
* `Ready.step_hart`: the clock of `EXECUTE` does what the instruction does besides setting its
  register.
* `Ready.step_execute`: it sets the register as well, unless the core has to wait.
-/

namespace Filestick.FemtoRV32

open Riscv

/-- What a program sees. -/
def hart (s : FemtoRV32) : Hart where
  regs b r := s.registerFile (BitVec.ofBool b ++ r)
  bank := s.bankSelect
  pc := s.pc
  mstatus := s.mstatus
  mcause := s.mcause
  mtvec := s.mtvec
  mepc := s.mepc
  mscratch := s.mscratch
  stvec := s.stvec
  sepc := s.sepc
  sscratch := s.sscratch
  scause := s.scause
  stval := s.stval
  sMode := s.sMode
  mMode := s.mMode
  pending := s.privViolation && !s.privMode

/-- The core is about to execute `i`, which is `len` bytes long. -/
structure Ready (s : FemtoRV32) (i : Instr) (len : BitVec 24) : Prop where
  state : s.state = .execute
  instr : s.instr = i.slots
  length : len = if s.longInstr then 4#24 else 2#24
  rs1 : s.rs1 = s.hart.get (s.ins.extractLsb 19 15)
  rs2 : s.rs2 = s.hart.get (s.ins.extractLsb 24 20)
  zero : ∀ b, s.registerFile (BitVec.ofBool b ++ 0#5) = 0#32
  calm : s.privMode = true → s.privViolation = false
  idle : s.quotientMsk = 0#32

/-- What comes from outside on a clock. -/
def outside (s : FemtoRV32) (c : CpuInput) (d : Word) : Outside :=
  ⟨c.interruptRequest, s.cycles, d⟩

variable {s : FemtoRV32} {c : CpuInput} {i : Instr} {len : BitVec 24} {d : Word}

/-! ### Decoding -/

theorem opcode_of (h : s.instr = i.slots) : s.opcode = i.opcode := by
  cases i <;> exact Holds.opcode_eq h

theorem Holds.csr_imm {imm : BitVec 12} {r1 rd : Reg} {f3 : BitVec 3} {opc : BitVec 5}
    (h : Holds s (imm.extractLsb' 5 7) (imm.extractLsb' 0 5) r1 f3 rd opc) : s.csr = imm := by
  rw [h.csr_eq]
  exact BitVec.extractLsb'_append_extractLsb'

theorem Holds.iimm_low {f7 : BitVec 7} {r2 r1 rd : Reg} {f3 : BitVec 3} {opc : BitVec 5}
    (h : Holds s f7 r2 r1 f3 rd opc) : s.iimm.setWidth 5 = r2 := by
  apply BitVec.eq_of_getLsbD_eq
  intro k hk
  simp only [iimm, BitVec.extractLsb, BitVec.getLsbD_setWidth, BitVec.getLsbD_append,
    getLsbD_spread, BitVec.getLsbD_extractLsb', h.bit_eq]
  interval_cases k <;> simp

theorem signExtend_low {n : ℕ} (x : BitVec n) :
    (x.signExtend 32).setWidth 24 = x.signExtend 24 := by
  apply BitVec.eq_of_getLsbD_eq
  intro k hk
  rw [BitVec.getLsbD_setWidth, BitVec.getLsbD_signExtend, BitVec.getLsbD_signExtend,
    decide_eq_true hk, decide_eq_true (by omega : k < 32), Bool.true_and, Bool.true_and]

/-- The instructions that the opcode alone does not tell apart. -/
theorem system_flags (h : s.instr = i.slots) :
    s.ecall = decide (i = .ecall) ∧ s.ebreak = decide (i = .ebreak) ∧
      s.interruptReturn = decide (i = .mret) ∧ s.supervisorReturn = decide (i = .sret) ∧
      s.isILLEGAL = false := by
  have hop := opcode_of h
  have hlegal : s.isILLEGAL = false := by
    rw [isILLEGAL, isLoad, isALUimm, isAUIPC, isStore, isALUreg, isLUI, isBranch, isJALR, isJAL,
      isSYSTEM, hop]
    cases i <;> rfl
  rw [ecall, ebreak, interruptReturn, supervisorReturn, isSYSTEM, hop, hlegal]
  cases i with
  | csr op rd rs1 num =>
    have hf : Holds s _ _ _ op.funct3 rd _ := h
    rw [hf.funct3_eq]
    cases op <;> exact ⟨rfl, rfl, rfl, rfl, rfl⟩
  | csri op rd uimm num =>
    have hf : Holds s _ _ _ (op.funct3 ||| 4#3) rd _ := h
    rw [hf.funct3_eq]
    cases op <;> exact ⟨rfl, rfl, rfl, rfl, rfl⟩
  | ecall | ebreak | mret | sret =>
    rw [Holds.funct3_eq h, Holds.csr_eq h]
    exact ⟨rfl, rfl, rfl, rfl, rfl⟩
  | _ => exact ⟨rfl, rfl, rfl, rfl, rfl⟩

/-! ### The wires -/

theorem Ready.pcInc_eq (h : Ready s i len) : s.pcInc = s.pc + len := by
  rw [pcInc, h.length]
  split <;> rfl

/-- The sum that is the address of a load, and the target of `jalr`. -/
theorem Ready.address_eq {rs1 : Reg} {imm : BitVec 12} (h : Ready s i len)
    (hr : s.ins.extractLsb 19 15 = rs1) :
    s.rs1.setWidth 24 + (imm.signExtend 32).setWidth 24 = s.hart.address rs1 imm := by
  rw [h.rs1, hr, Hart.address, BitVec.setWidth_add _ _ (by decide)]

theorem Ready.loadstoreAddr_load {op : Load} {rd rs1 : Reg} {imm : BitVec 12}
    (h : Ready s (.load op rd rs1 imm) len) : s.loadstoreAddr = s.hart.address rs1 imm := by
  have hf : Holds s _ _ rs1 op.funct3 rd 0b00000#5 := h.instr
  have h5 : s.ins.getLsbD 5 = false := hf.bit5_eq
  rw [loadstoreAddr, h5, if_neg Bool.false_ne_true, Holds.iimm_eq hf, h.address_eq hf.rs1Id_eq]

theorem Ready.loadstoreAddr_store {op : Store} {rs1 rs2 : Reg} {imm : BitVec 12}
    (h : Ready s (.store op rs1 rs2 imm) len) : s.loadstoreAddr = s.hart.address rs1 imm := by
  have hf : Holds s _ rs2 rs1 op.funct3 _ 0b01000#5 := h.instr
  have h5 : s.ins.getLsbD 5 = true := hf.bit5_eq
  rw [loadstoreAddr, h5, if_pos rfl, Holds.simm_eq hf, h.address_eq hf.rs1Id_eq]

theorem aluIn2_of (hreg : s.isALUreg = false) (hbranch : s.isBranch = false) :
    s.aluIn2 = s.iimm := by
  rw [aluIn2, hreg, hbranch]
  rfl

/-- **The next instruction.** -/
theorem Ready.pcNew_eq (h : Ready s i len) : s.pcNew = s.hart.target (s.pc + len) i := by
  have hop := opcode_of h.instr
  obtain ⟨-, -, hmret, hsret, -⟩ := system_flags h.instr
  rw [pcNew, hmret, hsret, h.pcInc_eq, isJALR, isJAL, isBranch, hop]
  cases i with
  | jal rd imm =>
    have hf : Holds s _ _ _ _ rd 0b11011#5 := h.instr
    have h3 : s.ins.getLsbD 3 = true := hf.bit3_eq
    show s.pcPlusImm = s.pc + (imm ++ 0#1).signExtend 24
    rw [pcPlusImm, h3, if_pos rfl, Holds.jimm_eq h.instr, signExtend_low]
  | jalr rd rs1 imm =>
    have hf : Holds s _ _ rs1 _ rd 0b11001#5 := h.instr
    have hreg : s.isALUreg = false := by rw [isALUreg, hop]; rfl
    have hbranch : s.isBranch = false := by rw [isBranch, hop]; rfl
    have hsum : s.aluPlus.setWidth 24 = s.hart.address rs1 imm := by
      rw [aluPlus, aluIn1, aluIn2_of hreg hbranch, Holds.iimm_eq hf,
        BitVec.setWidth_add _ _ (by decide), h.address_eq hf.rs1Id_eq]
    show s.aluPlus.extractLsb' 1 23 ++ 0#1 = (s.hart.address rs1 imm).extractLsb' 1 23 ++ 0#1
    rw [← hsum, BitVec.extractLsb'_setWidth_of_le (by decide)]
  | branch op rs1 rs2 imm =>
    have hf : Holds s _ rs2 rs1 op.funct3 _ 0b11000#5 := h.instr
    have h3 : s.ins.getLsbD 3 = false := hf.bit3_eq
    have h4 : s.ins.getLsbD 4 = false := hf.bit4_eq
    have hbranch : s.isBranch = true := by rw [isBranch, hop]; rfl
    have hin2 : s.aluIn2 = s.hart.get rs2 := by
      rw [aluIn2, hbranch, Bool.or_true, if_pos rfl, h.rs2, hf.rs2Id_eq]
    have hin1 : s.aluIn1 = s.hart.get rs1 := by
      rw [aluIn1, h.rs1, hf.rs1Id_eq]
    have hplus : s.pcPlusImm = s.pc + (imm ++ 0#1).signExtend 24 := by
      rw [pcPlusImm, h3, h4, if_neg Bool.false_ne_true, if_neg Bool.false_ne_true,
        Holds.bimm_eq hf, signExtend_low]
    rw [predicate_eq hf.funct3_eq, hin1, hin2, hplus]
    show (if (false || true && _) = true then _ else _) = if _ then _ else _
    rw [Bool.false_or, Bool.true_and]
    rfl
  | _ => rfl

theorem Ready.pending_eq (h : Ready s i len) : s.hart.pending = s.privViolation := by
  show (s.privViolation && !s.privMode) = s.privViolation
  cases hp : s.privMode with
  | false => rw [Bool.not_false, Bool.and_true]
  | true => rw [h.calm hp, Bool.false_and]

/-- **Traps.** -/
theorem Ready.trap_eq (h : Ready s i len) :
    s.hart.trap i = if s.ecall || s.ebreak || s.isILLEGAL || s.privViolation then some s.trapCause
      else none := by
  obtain ⟨hecall, hebreak, -, -, hlegal⟩ := system_flags h.instr
  rw [trapCause, hecall, hebreak, hlegal, ← h.pending_eq]
  cases i with
  | ecall | ebreak => rfl
  | _ =>
    show (if s.hart.pending then some 5#4 else none) = _
    cases s.hart.pending <;> rfl

/-! ### Control registers -/

theorem peek_index (num : BitVec 12) :
    num.extractLsb' 0 6 = BitVec.ofBool (num.getLsbD 5) ++ num.extractLsb' 0 5 := by
  apply BitVec.eq_of_getLsbD_eq
  intro k hk
  rw [BitVec.getLsbD_append, BitVec.getLsbD_extractLsb', BitVec.getLsbD_extractLsb']
  interval_cases k <;> simp

/-- What a control register holds. -/
theorem csrRead_eq (hzero : ∀ b, s.registerFile (BitVec.ofBool b ++ 0#5) = 0#32) :
    s.csrRead = s.hart.readCsr (s.outside c d) s.csr := by
  have hstatus : (0#28 ++ BitVec.ofBool s.mstatus ++ 0#3 : Word) =
      if s.mstatus then 8#32 else 0#32 := by
    cases s.mstatus <;> rfl
  have hcause : (BitVec.ofBool s.mcause ++ 0#31 : Word) =
      if s.mcause then 0x80000000#32 else 0#32 := by
    cases s.mcause <;> rfl
  have hpeek : s.registerFile (s.csr.extractLsb' 0 6) =
      if s.csr.extractLsb' 0 5 = 0#5 then 0#32
      else s.hart.regs (s.csr.getLsbD 5) (s.csr.extractLsb' 0 5) := by
    rw [peek_index]
    split_ifs with h0
    · rw [h0, hzero]
    · rfl
  rw [csrRead, hstatus, hcause, hpeek, setWidth_ofBool]
  rfl

theorem csrWrite_csr {op : CsrOp} {rd rs1 : Reg} {num : BitVec 12}
    (h : Ready s (.csr op rd rs1 num) len) :
    s.csr = num ∧ s.csrWrite = op.eval (s.hart.readCsr (s.outside c d) num) (s.hart.get rs1) := by
  have hf : Holds s _ _ rs1 op.funct3 rd _ := h.instr
  have hnum : s.csr = num := Holds.csr_imm hf
  refine ⟨hnum, ?_⟩
  have h14 : s.ins.getLsbD 14 = op.funct3.getLsbD 2 := hf.bit14_eq
  rw [csrWrite, csrModifier, h14, hf.size_eq, csrRead_eq (c := c) h.zero, hnum, h.rs1, hf.rs1Id_eq]
  cases op <;> rfl

theorem csrWrite_csri {op : CsrOp} {rd : Reg} {uimm : BitVec 5} {num : BitVec 12}
    (h : Ready s (.csri op rd uimm num) len) :
    s.csr = num ∧ s.csrWrite = op.eval (s.hart.readCsr (s.outside c d) num) (uimm.setWidth 32) := by
  have hf : Holds s _ _ uimm (op.funct3 ||| 4#3) rd _ := h.instr
  have hnum : s.csr = num := Holds.csr_imm hf
  refine ⟨hnum, ?_⟩
  have h14 : s.ins.getLsbD 14 = (op.funct3 ||| 4#3).getLsbD 2 := hf.bit14_eq
  rw [csrWrite, csrModifier, h14, hf.size_eq, csrRead_eq (c := c) h.zero, hnum, hf.rs1Id_eq]
  cases op <;> rfl

/-- **Control registers**: what is written, and to which one. -/
theorem Ready.csr_eq (h : Ready s i len) :
    s.hart.csrResult (s.outside c d) i =
      if s.csrExecute then some (s.csr, s.csrWrite) else none := by
  have hop := opcode_of h.instr
  rw [csrExecute, isSYSTEM, hop, h.state]
  cases i with
  | csr op rd rs1 num =>
    have hf : Holds s _ _ rs1 op.funct3 rd _ := h.instr
    obtain ⟨hnum, hwrite⟩ := csrWrite_csr (c := c) (d := d) h
    rw [hf.funct3_eq, hnum, hwrite]
    cases op <;> rfl
  | csri op rd uimm num =>
    have hf : Holds s _ _ uimm (op.funct3 ||| 4#3) rd _ := h.instr
    obtain ⟨hnum, hwrite⟩ := csrWrite_csri (c := c) (d := d) h
    rw [hf.funct3_eq, hnum, hwrite]
    cases op <;> rfl
  -- They have the opcode of the instructions on control registers, but `funct3` is 0.
  | ecall | ebreak | mret | sret =>
    rw [Holds.funct3_eq h.instr]
    rfl
  | _ => rfl

theorem Ready.clockCsr_eq (h : Ready s i len) (hreset : c.reset = true) :
    (s.clockCsr c).hart = { s.hart.writeCsr (s.hart.csrResult (s.outside c d) i) with
      regs := s.hart.regs } := by
  rw [h.csr_eq, clockCsr, hreset, Bool.not_true, if_neg Bool.false_ne_true]
  cases s.csrExecute <;> rfl

/-! ### Memory protection -/

theorem Ready.memAddr_eq (h : Ready s i len) : s.memAddr = s.loadstoreAddr := by
  rw [memAddr, if_neg (by rw [h.state]; decide)]

/-- **Violations.** -/
theorem Ready.violation_eq (h : Ready s i len) :
    s.hart.violation i = if !s.privMode && s.privRequired then some s.memAddr else none := by
  have hop := opcode_of h.instr
  have hpriv : s.hart.privileged = s.privMode := rfl
  rw [privRequired, h.memAddr_eq, isLoad, isStore, hop]
  cases i with
  | load op rd rs1 imm =>
    rw [h.loadstoreAddr_load]
    rfl
  | store op rs1 rs2 imm =>
    rw [h.loadstoreAddr_store]
    rfl
  | _ =>
    show none = if (!s.privMode && false) = true then some s.loadstoreAddr else none
    rw [Bool.and_false]
    rfl

/-! ### The bus -/

/-- The access to the memory that a clock makes. -/
def busAccess (s : FemtoRV32) : Option (Access 22) :=
  if s.memRstrb then some (.read (s.memAddr.extractLsb' 2 22))
  else if s.memWmask = 0#4 then none
  else some (.write s.written)

/-- **The access of an instruction** is the one that the core makes on the clock of `EXECUTE`. -/
theorem Ready.busAccess_eq (h : Ready s i len) (haligned : s.hart.Aligned i) :
    s.busAccess = s.hart.access i := by
  have hop := opcode_of h.instr
  have hload : s.memRstrb = (s.isLoad || false) := by
    rw [memRstrb, h.state]
    rfl
  have hstore : s.memWmask = if s.isStore then s.storeWmask else 0#4 := by
    rw [memWmask, h.state]
    rfl
  rw [busAccess, hload, hstore, isLoad, isStore, hop]
  cases i with
  | load op rd rs1 imm =>
    rw [Hart.access, ← h.loadstoreAddr_load, ← h.memAddr_eq]
    rfl
  | store op rs1 rs2 imm =>
    have hf : Holds s _ rs2 rs1 op.funct3 _ 0b01000#5 := h.instr
    -- The mask selects the bytes of the store only if it is within the word.
    have haligned' : op.Aligned s.loadstoreAddr := by
      rw [h.loadstoreAddr_store]
      exact haligned
    have hmask : s.memWmask = s.storeWmask := by
      rw [hstore, isStore, hop]
      rfl
    have hwritten := written_eq h.memAddr_eq hmask hf.size_eq haligned'
    rw [h.rs2, hf.rs2Id_eq, h.loadstoreAddr_store] at hwritten
    show (if s.storeWmask = 0#4 then none else some (Access.write s.written)) = _
    rw [if_neg s.storeWmask_ne_zero, hwritten]
    rfl
  | _ => rfl

/-! ### The clock of `EXECUTE` -/

theorem Ready.clockControl_eq (h : Ready s i len) (hreset : c.reset = true) :
    s.clockControl c = s.clockExecute c := by
  rw [clockControl, hreset, h.state]
  rfl

/-- The registers that an interrupt and a trap set. -/
theorem Ready.redirect_eq (h : Ready s i len) :
    (s.clockExecute c).hart =
      s.hart.redirect (s.outside c d) (s.hart.target (s.pc + len) i) i := by
  obtain ⟨hecall, hebreak, hmret, hsret, hlegal⟩ := system_flags h.instr
  have hinterrupt : s.hart.interrupted (s.outside c d) = s.interrupt c := rfl
  rw [Hart.redirect, hinterrupt, h.trap_eq, ← h.pcNew_eq, clockExecute]
  -- The interrupt comes first in `clockExecute` too.
  cases s.interrupt c with
  | true => rfl
  | false =>
    cases s.ecall || s.ebreak || s.isILLEGAL || s.privViolation with
    | true => rfl
    | false =>
      rw [hmret, hsret]
      simp only [decide_eq_true_eq]
      rfl

theorem Ready.sMode_eq (h : Ready s i len) (hreset : c.reset = true) :
    (s.step c).sMode = s.hart.sModeAfter (s.outside c d) i := by
  obtain ⟨-, -, -, hsret, -⟩ := system_flags h.instr
  have hstep : (s.step c).sMode = if s.sClear then false else if s.sSet || !c.reset then true
      else s.sMode := rfl
  rw [hstep, hreset, Hart.sModeAfter, Hart.leavesS, h.csr_eq, h.trap_eq, sClear, sSet, csrSClear,
    hsret, h.state]
  show (if (decide (i = .sret) || (s.csrExecute && s.csr == 0x5C1#12)) = true then false else
    if ((s.ecall || s.ebreak || s.isILLEGAL || s.privViolation) || false) = true then true
    else s.sMode) = _
  rw [Bool.or_false]
  cases s.csrExecute <;> cases s.ecall || s.ebreak || s.isILLEGAL || s.privViolation <;> rfl

theorem Ready.mMode_eq (h : Ready s i len) :
    (s.step c).mMode = s.hart.mModeAfter (s.outside c d) i := by
  obtain ⟨-, -, hmret, -, -⟩ := system_flags h.instr
  have hstep : (s.step c).mMode = if s.mClear then false else if s.mSet c then true
      else s.mMode := rfl
  rw [hstep, Hart.mModeAfter, mClear, mSet, hmret, h.state]
  show (if decide (i = .mret) = true then _ else _) = _
  simp only [decide_eq_true_eq]
  rfl

theorem Ready.stval_eq (h : Ready s i len) (hreset : c.reset = true) :
    (s.step c).stval = (s.hart.violation i).getD s.hart.stval := by
  have hstep : (s.step c).stval = if !c.reset then 0#24 else if s.privMode then s.stval
      else if s.privRequired then s.memAddr else s.stval := rfl
  rw [hstep, hreset, h.violation_eq]
  cases s.privMode <;> cases s.privRequired <;> rfl

theorem Ready.violated_eq (h : Ready s i len) (hreset : c.reset = true) :
    (s.step c).privViolation =
      (!s.hart.privileged && s.hart.pending || (s.hart.violation i).isSome) := by
  have hstep : (s.step c).privViolation = if !c.reset then false else if s.privMode then false
      else if s.privRequired then true else s.privViolation := rfl
  have hpriv : s.hart.privileged = s.privMode := rfl
  rw [hstep, hreset, h.violation_eq, h.pending_eq, hpriv]
  cases s.privMode <;> cases s.privRequired <;> cases s.privViolation <;> rfl

/-- **The clock of `EXECUTE`** does what the instruction does, but for the registers. -/
theorem Ready.step_hart (h : Ready s i len) (hreset : c.reset = true) :
    (s.step c).hart =
      { s.hart.retire (s.outside c d) len i with regs := (s.step c).hart.regs } := by
  have hcontrol := (congrArg hart (h.clockControl_eq hreset)).trans (h.redirect_eq (d := d))
  have hcsr := h.clockCsr_eq (d := d) hreset
  have hsMode := h.sMode_eq (d := d) hreset
  have hmMode := h.mMode_eq (c := c) (d := d)
  have hpending : (s.step c).hart.pending =
      ((!s.hart.privileged && s.hart.pending || (s.hart.violation i).isSome) &&
        !(s.hart.sModeAfter (s.outside c d) i || s.hart.mModeAfter (s.outside c d) i)) := by
    rw [← h.violated_eq hreset, ← hsMode, ← hmMode]
    rfl
  have hbank := congrArg Hart.bank hcsr
  have hpc := congrArg Hart.pc hcontrol
  have hmstatus := congrArg Hart.mstatus hcsr
  have hmcause := congrArg Hart.mcause hcontrol
  have hmtvec := congrArg Hart.mtvec hcsr
  have hmepc := congrArg Hart.mepc hcontrol
  have hmscratch := congrArg Hart.mscratch hcsr
  have hstvec := congrArg Hart.stvec hcsr
  have hsepc := congrArg Hart.sepc hcontrol
  have hsscratch := congrArg Hart.sscratch hcsr
  have hscause := congrArg Hart.scause hcontrol
  exact Hart.ext rfl hbank hpc hmstatus hmcause hmtvec hmepc hmscratch hstvec hsepc hsscratch
    hscause (h.stval_eq hreset) hsMode hmMode hpending

/-! ### The registers -/

theorem banked_eq (s : FemtoRV32) (r : Reg) : s.banked r = BitVec.ofBool s.bankSelect ++ r := by
  unfold banked
  cases s.bankSelect <;> revert r <;> decide

theorem bank_append_inj {b b' : Bool} {r r' : Reg} :
    BitVec.ofBool b ++ r = BitVec.ofBool b' ++ r' ↔ b = b' ∧ r = r' := by
  constructor
  · intro h
    have hlow := congrArg (fun x => x.setWidth 5) h
    have hhigh := congrArg (fun x => x.getLsbD 5) h
    simp only [BitVec.setWidth_append_eq_right] at hlow
    simp only [BitVec.getLsbD_append, Nat.lt_irrefl, if_false, Nat.sub_self] at hhigh
    refine ⟨?_, hlow⟩
    cases b <;> cases b' <;> first | rfl | exact absurd hhigh (by decide)
  · rintro ⟨rfl, rfl⟩
    rfl

/-- The registers behind a clock. -/
theorem step_regs (s : FemtoRV32) (c : CpuInput) :
    (s.step c).hart.regs =
      if s.writeBack then (s.hart.write (some (s.rdId, s.writeBackData c))).regs
      else s.hart.regs := by
  have hstep : (s.step c).hart.regs =
      fun b r => s.clockRegisterFile c (BitVec.ofBool b ++ r) := rfl
  rw [hstep, clockRegisterFile]
  cases s.writeBack with
  | false => rfl
  | true =>
    rw [Bool.true_and, if_pos rfl, Hart.write]
    by_cases hrd : s.rdId = 0#5
    · rw [if_pos hrd, bne_eq_false_iff_eq.mpr hrd]
      rfl
    · rw [if_neg hrd, bne_iff_ne.mpr hrd, if_pos rfl, banked_eq]
      -- Both banks are in one register file, with the bank as the upper bit of the number.
      funext b r
      show Function.update s.registerFile _ _ (BitVec.ofBool b ++ r) =
        Function.update s.hart.regs s.bankSelect _ b r
      rw [Function.update_apply, Function.update_apply]
      simp only [bank_append_inj]
      by_cases hb : b = s.bankSelect
      · by_cases hr : r = s.rdId
        · rw [if_pos ⟨hb, hr⟩, if_pos hb, hr, Function.update_self]
        · rw [if_neg fun h => hr h.2, if_pos hb, Function.update_of_ne hr, hb]
          rfl
      · rw [if_neg fun h => hb h.1, if_neg hb]
        rfl

theorem regs_of {rd : Reg} {x : Word} (hwrite : s.writeBack = true) (hrd : s.rdId = rd)
    (hx : s.writeBackData c = x) :
    (s.step c).hart.regs = (s.hart.write (some (rd, x))).regs := by
  rw [step_regs, hwrite, if_pos rfl, hrd, hx]

theorem regs_zero (hrd : s.rdId = 0#5) : (s.step c).hart.regs = s.hart.regs := by
  rw [step_regs, hrd]
  cases s.writeBack <;> rfl

/-- **The register of an instruction** is set on the clock of `EXECUTE`, unless the core waits. -/
theorem Ready.step_result (h : Ready s i len) (hwait : s.needToWait = false) :
    (s.step c).hart.regs =
      (s.hart.write (s.hart.result (s.outside c d) (s.pc + len) i)).regs := by
  have hop := opcode_of h.instr
  have hwrite : s.writeBack = (!(s.isBranch || s.isStore) && true) := by
    rw [writeBack, h.state]
    rfl
  have hreg : s.isALUreg = (i.opcode == 0b01100#5) := by rw [isALUreg, hop]
  have hbranch : s.isBranch = (i.opcode == 0b11000#5) := by rw [isBranch, hop]
  rw [isBranch, isStore, hop] at hwrite
  have hdata : s.writeBackData c = s.writeBackData c := rfl
  conv_rhs at hdata =>
    rw [writeBackData, isSYSTEM, isLUI, isALU, isALUimm, isALUreg, isAUIPC, isJALR, isJAL, isLoad,
      hop]
  cases i with
  | lui rd imm =>
    exact regs_of hwrite (Holds.rdId_eq h.instr) (hdata.trans (Holds.uimm_eq h.instr))
  | auipc rd imm =>
    have hf : Holds s _ _ _ _ rd 0b00101#5 := h.instr
    have h3 : s.ins.getLsbD 3 = false := hf.bit3_eq
    have h4 : s.ins.getLsbD 4 = true := hf.bit4_eq
    have hplus : s.pcPlusImm = s.pc + (imm ++ 0#12).setWidth 24 := by
      rw [pcPlusImm, h3, h4, if_neg Bool.false_ne_true, if_pos rfl, Holds.uimm_eq h.instr]
    exact regs_of hwrite hf.rdId_eq (hdata.trans (congrArg (fun x => x.setWidth 32) hplus))
  | jal rd imm =>
    exact regs_of hwrite (Holds.rdId_eq h.instr)
      (hdata.trans (congrArg (fun x => x.setWidth 32) h.pcInc_eq))
  | jalr rd rs1 imm =>
    exact regs_of hwrite (Holds.rdId_eq h.instr)
      (hdata.trans (congrArg (fun x => x.setWidth 32) h.pcInc_eq))
  | branch op rs1 rs2 imm =>
    rw [step_regs, hwrite]
    rfl
  | load op rd rs1 imm =>
    rw [needToWait, isLoad, hop] at hwait
    exact absurd hwait (by simp [Instr.opcode])
  | store op rs1 rs2 imm =>
    rw [step_regs, hwrite]
    rfl
  | opImm op rd rs1 imm =>
    have hf : Holds s _ _ rs1 op.funct3 rd 0b00100#5 := h.instr
    have hin1 : s.aluIn1 = s.hart.get rs1 := by rw [aluIn1, h.rs1, hf.rs1Id_eq]
    have hin2 : s.aluIn2 = imm.signExtend 32 := by
      rw [aluIn2_of hreg hbranch, Holds.iimm_eq hf]
    have hout : s.aluOut = op.eval (s.hart.get rs1) (imm.signExtend 32) := by
      rw [aluOut, hreg, ← hin1, ← hin2, ← aluOutBase_opImm hf.funct3_eq hf.bit5_eq]
      rfl
    exact regs_of hwrite hf.rdId_eq (hdata.trans hout)
  | shift op rd rs1 shamt =>
    have hf : Holds s op.funct7 shamt rs1 op.funct3 rd 0b00100#5 := h.instr
    have hin1 : s.aluIn1 = s.hart.get rs1 := by rw [aluIn1, h.rs1, hf.rs1Id_eq]
    have hin2 : s.aluIn2.setWidth 5 = shamt := by
      rw [aluIn2_of hreg hbranch, hf.iimm_low]
    have hout : s.aluOut = op.eval (s.hart.get rs1) shamt := by
      rw [aluOut, hreg, ← hin1, ← hin2, ← aluOutBase_shift hf.funct3_eq hf.bit30_eq]
      rfl
    exact regs_of hwrite hf.rdId_eq (hdata.trans hout)
  | opReg op rd rs1 rs2 =>
    have hf : Holds s op.funct7 rs2 rs1 op.funct3 rd 0b01100#5 := h.instr
    have hin1 : s.aluIn1 = s.hart.get rs1 := by rw [aluIn1, h.rs1, hf.rs1Id_eq]
    have hin2 : s.aluIn2 = s.hart.get rs2 := by
      rw [aluIn2, hreg]
      exact h.rs2.trans (congrArg s.hart.get hf.rs2Id_eq)
    have hfuncM : s.funcM = false := by
      rw [funcM, hf.bit25_eq]
      cases op with
      | shift op => cases op <;> rfl
      | _ => rfl
    have hout : s.aluOut = op.eval (s.hart.get rs1) (s.hart.get rs2) := by
      rw [aluOut, hfuncM, Bool.and_false, if_neg Bool.false_ne_true,
        aluOutBase_op hf.funct3_eq hf.bit5_eq hf.bit30_eq, hin1, hin2]
    exact regs_of hwrite hf.rdId_eq (hdata.trans hout)
  | muldiv op rd rs1 rs2 =>
    have hf : Holds s 1#7 rs2 rs1 op.funct3 rd 0b01100#5 := h.instr
    have hin1 : s.aluIn1 = s.hart.get rs1 := by rw [aluIn1, h.rs1, hf.rs1Id_eq]
    have hin2 : s.aluIn2 = s.hart.get rs2 := by
      rw [aluIn2, hreg]
      exact h.rs2.trans (congrArg s.hart.get hf.rs2Id_eq)
    have hfuncM : s.funcM = true := by
      rw [funcM, hf.bit25_eq]
      rfl
    -- The core waits for a division.
    have hmul : op.funct3.getLsbD 2 = false := by
      rw [needToWait, isDivide, hreg, hfuncM, hf.bit14_eq, Bool.or_eq_false_iff] at hwait
      exact hwait.2
    have hout : s.aluOut = Hart.muldiv op (s.hart.get rs1) (s.hart.get rs2) := by
      rw [aluOut, hreg, hfuncM, ← hin1, ← hin2, ← aluOutMuldiv_mul hf.funct3_eq hf.bit14_eq hmul]
      rfl
    exact regs_of hwrite hf.rdId_eq (hdata.trans hout)
  | csr op rd rs1 num =>
    have hread : s.csrRead = s.hart.readCsr (s.outside c d) num := by
      rw [csrRead_eq (c := c) h.zero, Holds.csr_imm h.instr]
    exact regs_of hwrite (Holds.rdId_eq h.instr) (hdata.trans hread)
  | csri op rd uimm num =>
    have hread : s.csrRead = s.hart.readCsr (s.outside c d) num := by
      rw [csrRead_eq (c := c) h.zero, Holds.csr_imm h.instr]
    exact regs_of hwrite (Holds.rdId_eq h.instr) (hdata.trans hread)
  | ecall | ebreak | mret | sret => exact regs_zero (Holds.rdId_eq h.instr)

/-- **An instruction** that the core does not wait for. -/
theorem Ready.step_execute (h : Ready s i len) (hreset : c.reset = true)
    (hwait : s.needToWait = false) :
    (s.step c).hart = s.hart.execute (s.outside c d) len i := by
  rw [h.step_hart (d := d) hreset, h.step_result (d := d) hwait]
  rfl

end Filestick.FemtoRV32
