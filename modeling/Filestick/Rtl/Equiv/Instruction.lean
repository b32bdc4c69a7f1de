import Filestick.Rtl.Equiv.Hart

/-!
# The clocks of an instruction

* `Waiting`: what holds while the core waits for the divider or the memory; `Ready.waiting`,
  `Waiting.step`.
* `LastClock`: the last clock of an instruction.
* `Ready.run`: behind it, a program sees what the instruction does.
-/

namespace Filestick

open Riscv

/-- The register is set once more. -/
theorem Hart.write_write {h h' : Hart} {rd : Reg} {x y : Word} (hbank : h'.bank = h.bank)
    (hregs : h'.regs = (h.write (some (rd, x))).regs) :
    (h'.write (some (rd, y))).regs = (h.write (some (rd, y))).regs := by
  unfold Hart.write at hregs ⊢
  by_cases hrd : rd = 0#5
  · simp only [if_pos hrd] at hregs ⊢
    exact hregs
  · simp only [if_neg hrd] at hregs ⊢
    rw [hregs, hbank, Function.update_self, Function.update_idem, Function.update_idem]

namespace FemtoRV32

variable {s s' : FemtoRV32} {c : CpuInput} {i : Instr} {len : BitVec 24} {d : Word} {h : Hart}

/-! ### Waiting -/

/-- The core waits for the divider or the memory. -/
def Waits (s : FemtoRV32) : Prop := s.state = .waitAluOrMem ∨ s.state = .waitAluOrMemSkip

/-- The core goes on to wait. -/
def busy (s : FemtoRV32) (c : CpuInput) : Bool := s.aluBusy || c.memRbusy || c.memWbusy

/-- A violation of this access has been recorded. -/
def Noted (s : FemtoRV32) : Prop :=
  s.privMode = false → s.privRequired = true → s.privViolation = true ∧ s.stval = s.memAddr

/-- What stays the same while the core waits in an instruction that was executed in the state `s`;
`h` is what a program sees then, but for the registers. -/
structure Within (s : FemtoRV32) (h : Hart) (s' : FemtoRV32) : Prop where
  instr : s'.instr = s.instr
  rs1 : s'.rs1 = s.rs1
  rs2 : s'.rs2 = s.rs2
  bank : s'.bankSelect = s.bankSelect
  hart : s'.hart = { h with regs := s'.hart.regs }

/-- The core waits in this instruction. -/
structure Waiting (s : FemtoRV32) (h : Hart) (s' : FemtoRV32) : Prop extends Within s h s' where
  waits : s'.Waits
  noted : s'.Noted
  regs : ∃ x, s'.hart.regs =
    if s.isStore then s.hart.regs else (s.hart.write (some (s.rdId, x))).regs

theorem Waits.memAddr_eq (hw : s.Waits) : s.memAddr = s.loadstoreAddr := by
  rw [memAddr, if_neg]
  rintro (h | h) <;> rcases hw with hw | hw <;> rw [hw] at h <;> exact absurd h (by decide)

theorem Waits.ne_execute (hw : s.Waits) : (s.state == .execute) = false := by
  rcases hw with h | h <;> rw [h] <;> rfl

theorem Within.loadstoreAddr_eq (hw : Within s h s') : s'.loadstoreAddr = s.loadstoreAddr := by
  rw [loadstoreAddr, loadstoreAddr, simm, iimm, simm, iimm, ins, ins, hw.instr, hw.rs1]

theorem Within.access_eq (hw : Within s h s') :
    s'.isLoad = s.isLoad ∧ s'.isStore = s.isStore ∧ s'.isBranch = s.isBranch := by
  rw [isLoad, isLoad, isStore, isStore, isBranch, isBranch, opcode, opcode, ins, ins, hw.instr]
  exact ⟨rfl, rfl, rfl⟩

theorem Within.rdId_eq (hw : Within s h s') : s'.rdId = s.rdId := by
  rw [rdId, rdId, ins, ins, hw.instr]

/-- A clock on which the core waits. -/
theorem Waits.clockControl_eq (hw : s.Waits) (hreset : c.reset = true) :
    s.clockControl c = { s with
      state := if s.busy c then s.state
        else if s.state = .waitAluOrMem then .fetchInstr else .waitInstr } := by
  rcases hw with h | h <;> rw [clockControl, hreset, h, busy] <;>
    cases s.aluBusy || c.memRbusy || c.memWbusy <;> rfl

theorem Waits.clockCsr_eq (hw : s.Waits) (hreset : c.reset = true) : s.clockCsr c = s := by
  rw [clockCsr, hreset, csrExecute, hw.ne_execute, Bool.and_false]
  rfl

theorem Waits.sMode_eq (hw : s.Waits) (hreset : c.reset = true) : (s.step c).sMode = s.sMode := by
  show (if s.sClear then false else if s.sSet || !c.reset then true else s.sMode) = s.sMode
  rw [sClear, sSet, hw.ne_execute, hreset]
  rfl

theorem Waits.mMode_eq (hw : s.Waits) : (s.step c).mMode = s.mMode := by
  show (if s.mClear then false else if s.mSet c then true else s.mMode) = s.mMode
  rw [mClear, mSet, hw.ne_execute]
  rfl

theorem Waits.privMode_eq (hw : s.Waits) (hreset : c.reset = true) :
    (s.step c).privMode = s.privMode := by
  rw [privMode, privMode, hw.sMode_eq hreset, hw.mMode_eq]

theorem Waits.busAccess_eq (hw : s.Waits) : s.busAccess = none := by
  rw [busAccess, memRstrb, memWmask]
  rcases hw with h | h <;> rw [h] <;> rfl

/-- It changes nothing that a program sees, but for the registers. -/
theorem Waits.step_hart (hw : s.Waits) (hn : s.Noted) (hreset : c.reset = true) :
    (s.step c).hart = { s.hart with regs := (s.step c).hart.regs } := by
  have hcontrol := hw.clockControl_eq hreset
  have hcsr := hw.clockCsr_eq hreset
  have hviolation : (s.step c).privViolation = if !c.reset then false
      else if s.privMode then false else if s.privRequired then true else s.privViolation := rfl
  have hstval : (s.step c).stval = if !c.reset then 0#24 else if s.privMode then s.stval
      else if s.privRequired then s.memAddr else s.stval := rfl
  have hstval' : (s.step c).stval = s.stval := by
    rw [hstval, hreset]
    cases hp : s.privMode with
    | true => rfl
    | false =>
      cases hr : s.privRequired with
      | true => exact (hn hp hr).2.symm
      | false => rfl
  have hpending : (s.step c).hart.pending = s.hart.pending := by
    show ((s.step c).privViolation && !(s.step c).privMode) = (s.privViolation && !s.privMode)
    rw [hw.privMode_eq hreset, hviolation, hreset]
    cases hp : s.privMode with
    | true => rw [Bool.not_true, Bool.and_false, Bool.and_false]
    | false =>
      cases hr : s.privRequired with
      | true => rw [(hn hp hr).1]; rfl
      | false => rfl
  have hbank := congrArg bankSelect hcsr
  have hpc := congrArg pc hcontrol
  have hmstatus := congrArg mstatus hcsr
  have hmcause := congrArg mcause hcontrol
  have hmtvec := congrArg mtvec hcsr
  have hmepc := congrArg mepc hcontrol
  have hmscratch := congrArg mscratch hcsr
  have hstvec := congrArg stvec hcsr
  have hsepc := congrArg sepc hcontrol
  have hsscratch := congrArg sscratch hcsr
  have hscause := congrArg scause hcontrol
  exact Hart.ext rfl hbank hpc hmstatus hmcause hmtvec hmepc hmscratch hstvec hsepc hsscratch
    hscause hstval' (hw.sMode_eq hreset) hw.mMode_eq hpending

theorem Waiting.within_step (hw : Waiting s h s') (hreset : c.reset = true) :
    Within s h (s'.step c) := by
  have hcontrol := hw.waits.clockControl_eq hreset
  have hcsr := hw.waits.clockCsr_eq hreset
  constructor
  · exact (congrArg instr hcontrol).trans hw.instr
  · exact (congrArg rs1 hcontrol).trans hw.rs1
  · exact (congrArg rs2 hcontrol).trans hw.rs2
  · exact (congrArg bankSelect hcsr).trans hw.bank
  · rw [hw.waits.step_hart hw.noted hreset, hw.hart]

theorem Waiting.step_regs (hw : Waiting s h s') (hbranch : s.isBranch = false)
    (hstore : s.isStore = false) :
    (s'.step c).hart.regs = (s.hart.write (some (s.rdId, s'.writeBackData c))).regs := by
  obtain ⟨x, hx⟩ := hw.regs
  obtain ⟨-, hst, hbr⟩ := hw.access_eq
  have hwrite : s'.writeBack = true := by
    rw [writeBack, hst, hbr, hbranch, hstore]
    rcases hw.waits with h | h <;> rw [h] <;> rfl
  rw [hstore, if_neg Bool.false_ne_true] at hx
  rw [FemtoRV32.step_regs, hwrite, if_pos rfl, hw.rdId_eq]
  exact Hart.write_write hw.bank hx

theorem Waiting.step_regs_store (hw : Waiting s h s') (hstore : s.isStore = true) :
    (s'.step c).hart.regs = s.hart.regs := by
  obtain ⟨x, hx⟩ := hw.regs
  obtain ⟨-, hst, -⟩ := hw.access_eq
  have hwrite : s'.writeBack = false := by
    rw [writeBack, hst, hstore, Bool.or_true]
    rfl
  rw [hstore, if_pos rfl] at hx
  rw [FemtoRV32.step_regs, hwrite, if_neg Bool.false_ne_true, hx]

/-- **One more clock** of waiting. -/
theorem Waiting.step (hw : Waiting s h s') (hreset : c.reset = true) (hbranch : s.isBranch = false)
    (hbusy : s'.busy c = true) : Waiting s h (s'.step c) := by
  have hwithin := hw.within_step hreset
  have hcontrol := hw.waits.clockControl_eq hreset
  have hstate : (s'.step c).state = s'.state := by
    have h' := congrArg state hcontrol
    simp only [hbusy, if_true] at h'
    exact h'
  have hwaits : (s'.step c).Waits := by
    rw [Waits, hstate]
    exact hw.waits
  have haddr : (s'.step c).memAddr = s'.memAddr := by
    rw [hwaits.memAddr_eq, hw.waits.memAddr_eq, hwithin.loadstoreAddr_eq, hw.loadstoreAddr_eq]
  refine { toWithin := hwithin, waits := hwaits, noted := ?_, regs := ?_ }
  · intro hp hr
    rw [hw.waits.privMode_eq hreset] at hp
    rw [privRequired, hwithin.access_eq.1, hwithin.access_eq.2.1, ← hw.access_eq.1,
      ← hw.access_eq.2.1, haddr] at hr
    obtain ⟨hv, hs⟩ := hw.noted hp hr
    have hviolation : (s'.step c).privViolation = if !c.reset then false
        else if s'.privMode then false else if s'.privRequired then true
        else s'.privViolation := rfl
    have hstval : (s'.step c).stval = if !c.reset then 0#24 else if s'.privMode then s'.stval
        else if s'.privRequired then s'.memAddr else s'.stval := rfl
    have hr' : s'.privRequired = true := hr
    rw [hviolation, hstval, hreset, hp, hr', haddr]
    exact ⟨rfl, rfl⟩
  · cases hstore : s.isStore with
    | true => exact ⟨0#32, hw.step_regs_store hstore⟩
    | false => exact ⟨_, hw.step_regs hbranch hstore⟩

/-- The last clock of waiting. -/
theorem Waiting.step_state (hw : Waiting s h s') (hreset : c.reset = true)
    (hbusy : s'.busy c = false) :
    (s'.step c).state = .fetchInstr ∨ (s'.step c).state = .waitInstr := by
  have h' := congrArg state (hw.waits.clockControl_eq hreset)
  simp only [hbusy, Bool.false_eq_true, if_false] at h'
  have hstate : (s'.step c).state =
      if s'.state = .waitAluOrMem then .fetchInstr else .waitInstr := h'
  rw [hstate]
  split_ifs
  · exact Or.inl rfl
  · exact Or.inr rfl

/-! ### The clocks of an instruction -/

theorem needToWait_kind (hwait : s.needToWait = true) :
    s.isBranch = false ∧ s.isSYSTEM = false := by
  constructor
  · by_contra hne
    rw [Bool.not_eq_false, isBranch, beq_iff_eq] at hne
    simp [needToWait, isLoad, isStore, isDivide, isALUreg, hne] at hwait
  · by_contra hne
    rw [Bool.not_eq_false, isSYSTEM, beq_iff_eq] at hne
    simp [needToWait, isLoad, isStore, isDivide, isALUreg, hne] at hwait

/-- The state behind the clock of `EXECUTE`. -/
theorem clockExecute_state (s : FemtoRV32) (c : CpuInput) :
    if s.needToWait then (s.clockExecute c).Waits
    else (s.clockExecute c).state = .fetchInstr ∨ (s.clockExecute c).state = .waitInstr := by
  unfold clockExecute Waits
  cases s.needToWait <;> split_ifs <;> simp_all

/-- **The core begins to wait.** -/
theorem Ready.waiting (h : Ready s i len) (hreset : c.reset = true) (hwait : s.needToWait = true) :
    Waiting s (s.hart.retire (s.outside c d) len i) (s.step c) := by
  obtain ⟨hbranch, hsystem⟩ := needToWait_kind hwait
  have hcontrol := h.clockControl_eq hreset
  have hinstr : (s.clockExecute c).instr = s.instr := by unfold clockExecute; split_ifs <;> rfl
  have hrs1 : (s.clockExecute c).rs1 = s.rs1 := by unfold clockExecute; split_ifs <;> rfl
  have hrs2 : (s.clockExecute c).rs2 = s.rs2 := by unfold clockExecute; split_ifs <;> rfl
  have hwaits : (s.step c).Waits := by
    have hstate := s.clockExecute_state c
    rw [hwait, if_pos rfl, ← hcontrol] at hstate
    exact hstate
  have hexecute : s.csrExecute = false := by
    rw [csrExecute, hsystem]
    rfl
  have hcsr : s.clockCsr c = s := by
    rw [clockCsr, hreset, hexecute]
    rfl
  have hbank := congrArg bankSelect hcsr
  have hwithin : Within s (s.hart.retire (s.outside c d) len i) (s.step c) := by
    constructor
    · exact (congrArg FemtoRV32.instr hcontrol).trans hinstr
    · exact (congrArg FemtoRV32.rs1 hcontrol).trans hrs1
    · exact (congrArg FemtoRV32.rs2 hcontrol).trans hrs2
    · exact hbank
    · exact h.step_hart hreset
  have haddr : (s.step c).memAddr = s.memAddr := by
    rw [hwaits.memAddr_eq, hwithin.loadstoreAddr_eq, h.memAddr_eq]
  refine { toWithin := hwithin, waits := hwaits, noted := ?_, regs := ?_ }
  · intro hp hr
    have hr' : s.privRequired = true := by
      rw [privRequired, hwithin.access_eq.1, hwithin.access_eq.2.1, haddr] at hr
      exact hr
    have hp' : s.privMode = false := by
      have hsMode : (s.step c).sMode = if s.sClear then false
          else if s.sSet || !c.reset then true else s.sMode := rfl
      have hmMode : (s.step c).mMode = if s.mClear then false
          else if s.mSet c then true else s.mMode := rfl
      have hsClear : s.sClear = false := by
        rw [sClear, supervisorReturn, csrSClear, hexecute, hsystem]
        simp
      have hmClear : s.mClear = false := by
        rw [mClear, interruptReturn, hsystem]
        simp
      rw [privMode, hsMode, hmMode, hsClear, hmClear] at hp
      rw [privMode]
      cases hs : s.sMode <;> cases hm : s.mMode <;> simp_all
    have hviolation : (s.step c).privViolation = if !c.reset then false
        else if s.privMode then false else if s.privRequired then true else s.privViolation := rfl
    have hstval : (s.step c).stval = if !c.reset then 0#24 else if s.privMode then s.stval
        else if s.privRequired then s.memAddr else s.stval := rfl
    rw [hviolation, hstval, hreset, hp', hr', haddr]
    exact ⟨rfl, rfl⟩
  · have hwrite : s.writeBack = !s.isStore := by
      rw [writeBack, h.state, hbranch, Bool.false_or]
      exact Bool.and_true _
    refine ⟨s.writeBackData c, ?_⟩
    rw [FemtoRV32.step_regs, hwrite]
    cases s.isStore <;> rfl

variable {is : ℕ → CpuInput}

/-- It waits as long as it is busy. -/
theorem Ready.waiting_run (h : Ready s i len) (hreset : ∀ t, (is t).reset = true)
    (hwait : s.needToWait = true) (k : ℕ)
    (hbusy : ∀ j, 1 ≤ j → j ≤ k → (s.after is j).busy (is j) = true) :
    Waiting s (s.hart.retire (s.outside (is 0) d) len i) (s.after is (k + 1)) := by
  induction k with
  | zero => exact h.waiting (hreset 0) hwait
  | succ k ih =>
    have hw := ih fun j h1 hj => hbusy j h1 (by omega)
    exact hw.step (hreset _) (needToWait_kind hwait).1 (hbusy _ (by omega) (Nat.le_refl _))

/-- The number of the last clock of an instruction, which starts on the clock 0: a division takes 33
clocks more, and a load or a store until the bus is not busy. -/
def LastClock (s : FemtoRV32) (is : ℕ → CpuInput) (k : ℕ) : Prop :=
  if s.isDivide then k = 33 ∧ ((is k).memRbusy || (is k).memWbusy) = false
  else if s.needToWait then
    1 ≤ k ∧ (∀ j, 1 ≤ j → j < k → ((is j).memRbusy || (is j).memWbusy) = true) ∧
      ((is k).memRbusy || (is k).memWbusy) = false
  else k = 0

/-- The word of a load ends up in its register. -/
theorem Ready.load_data {op : Load} {rd rs1 : Reg} {imm : BitVec 12}
    (h : Ready s (.load op rd rs1 imm) len) {h' : Hart} (hw : Within s h' s') :
    s'.writeBackData c = op.ofWord ((s.hart.address rs1 imm).setWidth 2) c.memRdata := by
  have hf : Holds s' _ _ rs1 op.funct3 rd 0b00000#5 := hw.instr.trans h.instr
  have hop : s'.opcode = 0b00000#5 := hf.opcode_eq
  rw [← h.loadstoreAddr_load, ← hw.loadstoreAddr_eq, ← loadData_eq hf.size_eq hf.bit14_eq,
    writeBackData, isSYSTEM, isLUI, isALU, isALUimm, isALUreg, isAUIPC, isJALR, isJAL, isLoad, hop]
  rfl

/-- The divider in the middle of a division. -/
theorem Ready.dividing (h : Ready s i len) (hreset : ∀ t, (is t).reset = true)
    (hdiv : s.isDivide = true) (k : ℕ) (hk : k ≤ 32) :
    Waiting s (s.hart.retire (s.outside (is 0) d) len i) (s.after is (k + 1)) ∧
      Dividing (magnitude (!s.ins.getLsbD 12) s.aluIn1).toNat
        (magnitude (!s.ins.getLsbD 12) s.aluIn2).toNat (32 - k) (s.after is (k + 1)) := by
  have hwait : s.needToWait = true := by rw [needToWait, hdiv, Bool.or_true]
  induction k with
  | zero => exact ⟨h.waiting (hreset 0) hwait, dividing_start h.state hdiv (is 0)⟩
  | succ k ih =>
    obtain ⟨hw, hd⟩ := ih (by omega)
    have hleft : 32 - k = 32 - (k + 1) + 1 := by omega
    rw [hleft] at hd
    -- A bit of the quotient is left to be found, so the mask is not 0 yet.
    have hbusy : (s.after is (k + 1)).busy (is (k + 1)) = true := by
      have hmask : (s.after is (k + 1)).quotientMsk ≠ 0#32 := by
        intro h0
        have hmask := hd.mask
        rw [h0, pow_succ, Nat.mul_div_cancel _ (by decide)] at hmask
        exact absurd hmask.symm (Nat.pos_iff_ne_zero.mp (Nat.two_pow_pos _))
      rw [busy, aluBusy, bne_iff_ne.mpr hmask]
      rfl
    refine ⟨hw.step (hreset _) (needToWait_kind hwait).1 hbusy, ?_⟩
    refine (Dividing.step hd (by omega) ?_ _).1
    rcases hw.waits with hs | hs <;> rw [hs] <;> decide

theorem Within.aluIn_eq {h' : Hart} (hw : Within s h' s') :
    s'.aluIn1 = s.aluIn1 ∧ s'.aluIn2 = s.aluIn2 ∧ s'.ins = s.ins := by
  have hins : s'.ins = s.ins := congrArg (· ++ 0#2) hw.instr
  refine ⟨hw.rs1, ?_, hins⟩
  rw [aluIn2, aluIn2, isALUreg, isALUreg, isBranch, isBranch, opcode, opcode, iimm, iimm, hins,
    hw.rs2]

/-- The result of a division is in the register behind its last clock. -/
theorem Ready.divide_data {op : MulDiv} {rd rs1 rs2 : Reg}
    (h : Ready s (.muldiv op rd rs1 rs2) len) (hreset : ∀ t, (is t).reset = true)
    (hdiv : s.isDivide = true) :
    (s.after is 33).writeBackData c = op.eval (s.hart.get rs1) (s.hart.get rs2) := by
  obtain ⟨hw, hd⟩ := h.dividing (d := 0#32) hreset hdiv 31 (by decide)
  obtain ⟨hw', -⟩ := h.dividing (d := 0#32) hreset hdiv 32 (Nat.le_refl _)
  have hne : (s.after is 32).state ≠ .execute := by
    rcases hw.waits with hs | hs <;> rw [hs] <;> decide
  -- The last bit is found on the clock 32, and the result written back on the clock 33.
  obtain ⟨-, hpartial, hresult⟩ := Dividing.step (j := 0) hd (by decide) hne (is 32)
  obtain ⟨hin1, hin2, hins⟩ := hw'.aluIn_eq
  have hf : Holds s 1#7 rs2 rs1 op.funct3 rd 0b01100#5 := h.instr
  have hf' : Holds (s.after is 33) 1#7 rs2 rs1 op.funct3 rd 0b01100#5 := hw'.instr.trans h.instr
  have hreg : s.isALUreg = true := by
    rw [isALUreg, hf.opcode_eq]
    rfl
  have hbit : op.funct3.getLsbD 2 = true := by
    rw [isDivide, Bool.and_eq_true, hf.bit14_eq] at hdiv
    exact hdiv.2
  have hop1 : s.aluIn1 = s.hart.get rs1 := by rw [aluIn1, h.rs1, hf.rs1Id_eq]
  have hop2 : s.aluIn2 = s.hart.get rs2 := by
    rw [aluIn2, hreg, Bool.true_or, if_pos rfl, h.rs2, hf.rs2Id_eq]
  have hins32 : (s.after is 32).ins = (s.after is 33).ins := by
    rw [hins, hw.aluIn_eq.2.2]
  rw [hins32] at hresult
  rw [← hins, ← hin1, ← hin2] at hpartial
  have hout : (s.after is 33).aluOutMuldiv = op.eval s.aluIn1 s.aluIn2 := by
    rw [← hin1, ← hin2]
    exact aluOutMuldiv_of_partial hf'.bit12_eq hf'.bit13_eq hf'.bit14_eq hbit hpartial hresult
  have hreg' : (s.after is 33).isALUreg = true := by
    rw [isALUreg, hf'.opcode_eq]
    rfl
  have hfuncM : (s.after is 33).funcM = true := by
    rw [funcM, hf'.bit25_eq]
    rfl
  have hdata : (s.after is 33).writeBackData c = (s.after is 33).aluOut := by
    rw [writeBackData, isSYSTEM, isLUI, isALU, isALUimm, isALUreg, hf'.opcode_eq]
    rfl
  rw [hdata, aluOut, hreg', hfuncM, Bool.and_true, if_pos rfl, hout, hop1, hop2]

/-- The divider is not busy in an instruction that does not divide. -/
theorem Ready.after_aluBusy (h : Ready s i len) (hdiv : s.isDivide = false) (j : ℕ)
    (hwaits : ∀ t, 1 ≤ t → t < j → (s.after is t).Waits) : (s.after is j).aluBusy = false := by
  induction j with
  | zero =>
    show s.aluBusy = false
    rw [aluBusy, h.idle]
    rfl
  | succ j ih =>
    refine step_aluBusy (ih fun t h1 ht => hwaits t h1 (by omega)) ?_
    intro hs
    cases j with
    | zero => exact hdiv
    | succ j =>
      have hw := (hwaits (j + 1) (by omega) (by omega)).ne_execute
      rw [hs] at hw
      exact absurd hw (by decide)

/-- The clocks of an instruction that the core waits for. -/
theorem Ready.waiting_until (h : Ready s i len) (hreset : ∀ t, (is t).reset = true) {k : ℕ}
    (hk : s.LastClock is k) (hwait : s.needToWait = true) (j : ℕ) (h1 : 1 ≤ j) (hj : j ≤ k) :
    Waiting s (s.hart.retire (s.outside (is 0) d) len i) (s.after is j) := by
  rw [LastClock, hwait] at hk
  obtain ⟨m, rfl⟩ : ∃ m, j = m + 1 := ⟨j - 1, by omega⟩
  cases hdiv : s.isDivide with
  | true =>
    rw [hdiv, if_pos rfl] at hk
    exact (h.dividing hreset hdiv m (by omega)).1
  | false =>
    rw [hdiv, if_neg Bool.false_ne_true, if_pos rfl] at hk
    refine h.waiting_run hreset hwait m fun t h1 ht => ?_
    rw [busy, Bool.or_assoc, hk.2.1 t h1 (by omega), Bool.or_true]

/-- The instructions that the core waits for. -/
theorem Ready.waiting_kind (h : Ready s i len) (hwait : s.needToWait = true) :
    (∃ op rd rs1 imm, i = .load op rd rs1 imm) ∨ (∃ op rs1 rs2 imm, i = .store op rs1 rs2 imm) ∨
      ∃ op rd rs1 rs2, i = .muldiv op rd rs1 rs2 ∧ s.isDivide = true := by
  have hop := opcode_of h.instr
  rw [needToWait, isLoad, isStore, hop] at hwait
  cases i with
  | load op rd rs1 imm => exact Or.inl ⟨op, rd, rs1, imm, rfl⟩
  | store op rs1 rs2 imm => exact Or.inr (Or.inl ⟨op, rs1, rs2, imm, rfl⟩)
  | muldiv op rd rs1 rs2 => exact Or.inr (Or.inr ⟨op, rd, rs1, rs2, rfl, hwait⟩)
  | opReg op rd rs1 rs2 =>
    have hf : Holds s op.funct7 rs2 rs1 op.funct3 rd 0b01100#5 := h.instr
    have hfuncM : s.funcM = false := by
      rw [funcM, hf.bit25_eq]
      cases op with
      | shift op => cases op <;> rfl
      | _ => rfl
    rw [isDivide, hfuncM, Bool.and_false] at hwait
    exact absurd hwait Bool.false_ne_true
  | _ =>
    rw [isDivide, isALUreg, hop] at hwait
    exact absurd hwait Bool.false_ne_true

/-- The register behind the last clock of an instruction that the core waits for. -/
theorem Ready.waited_result (h : Ready s i len) (hreset : ∀ t, (is t).reset = true) {k : ℕ}
    (hk : s.isDivide = true → k = 33) (hwait : s.needToWait = true) {h' : Hart}
    (hw : Waiting s h' (s.after is k)) :
    (s.after is (k + 1)).hart.regs =
      (s.hart.write (s.hart.result (s.outside (is 0) (is k).memRdata) (s.pc + len) i)).regs := by
  have hbranch := (needToWait_kind hwait).1
  have hstore : s.isStore = (i.opcode == 0b01000#5) := by rw [isStore, opcode_of h.instr]
  rcases h.waiting_kind hwait with
    ⟨op, rd, rs1, imm, rfl⟩ | ⟨op, rs1, rs2, imm, rfl⟩ | ⟨op, rd, rs1, rs2, rfl, hdiv⟩
  · have hregs := hw.step_regs (c := is k) hbranch hstore
    rw [Holds.rdId_eq h.instr, h.load_data hw.toWithin] at hregs
    exact hregs
  · exact hw.step_regs_store hstore
  · obtain rfl := hk hdiv
    have hregs := hw.step_regs (c := is 33) hbranch hstore
    rw [Holds.rdId_eq h.instr, h.divide_data hreset hdiv] at hregs
    have hop : op ≠ .mulhsu := by
      rintro rfl
      rw [isDivide, Holds.bit14_eq h.instr, Bool.and_eq_true] at hdiv
      exact absurd hdiv.2 (by decide)
    have heval (x y : Word) : Hart.muldiv op x y = op.eval x y := if_neg hop
    rw [Hart.result, heval]
    exact hregs

/-- On the last clock, the divider is not busy. -/
theorem Ready.last_aluBusy (h : Ready s i len) (hreset : ∀ t, (is t).reset = true) {k : ℕ}
    (hk : s.LastClock is k) (hwaits : ∀ j, 1 ≤ j → j < k → (s.after is j).Waits) :
    (s.after is k).aluBusy = false := by
  rw [LastClock] at hk
  cases hdiv : s.isDivide with
  | true =>
    rw [hdiv, if_pos rfl] at hk
    obtain ⟨rfl, -⟩ := hk
    have hmask := (h.dividing (d := 0#32) hreset hdiv 32 (Nat.le_refl _)).2.mask
    have h0 : (s.after is 33).quotientMsk = 0#32 := BitVec.eq_of_toNat_eq hmask
    rw [aluBusy, h0]
    rfl
  | false => exact h.after_aluBusy hdiv k hwaits

/-- **An instruction**: behind its last clock, a program sees what the instruction does, and the
core goes on with the next one. -/
theorem Ready.run (h : Ready s i len) (hreset : ∀ t, (is t).reset = true) {k : ℕ}
    (hk : s.LastClock is k) :
    (s.after is (k + 1)).hart = s.hart.execute (s.outside (is 0) (is k).memRdata) len i ∧
      ((s.after is (k + 1)).state = .fetchInstr ∨ (s.after is (k + 1)).state = .waitInstr) ∧
      ∀ j, 1 ≤ j → j ≤ k → (s.after is j).Waits := by
  have hk' := hk
  rw [LastClock] at hk'
  cases hwait : s.needToWait with
  | false =>
    have hdiv : s.isDivide = false := by
      rw [needToWait, Bool.or_eq_false_iff] at hwait
      exact hwait.2
    rw [hdiv, hwait, if_neg Bool.false_ne_true, if_neg Bool.false_ne_true] at hk'
    subst hk'
    refine ⟨h.step_execute (hreset 0) hwait, ?_, fun j h1 hj => absurd hj (by omega)⟩
    have hstate := s.clockExecute_state (is 0)
    rw [hwait, if_neg Bool.false_ne_true, ← h.clockControl_eq (hreset 0)] at hstate
    exact hstate
  | true =>
    have hpos : 1 ≤ k := by
      cases hdiv : s.isDivide with
      | true => rw [hdiv, if_pos rfl] at hk'; omega
      | false => rw [hdiv, hwait, if_neg Bool.false_ne_true, if_pos rfl] at hk'; exact hk'.1
    have hw := h.waiting_until (d := (is k).memRdata) hreset hk hwait
    have hbus : ((is k).memRbusy || (is k).memWbusy) = false := by
      cases hdiv : s.isDivide with
      | true => rw [hdiv, if_pos rfl] at hk'; exact hk'.2
      | false => rw [hdiv, hwait, if_neg Bool.false_ne_true, if_pos rfl] at hk'; exact hk'.2.2
    have halu := h.last_aluBusy hreset hk fun j h1 hj => (hw j h1 (by omega)).waits
    have hbusy : (s.after is k).busy (is k) = false := by
      rw [busy, halu, Bool.false_or, hbus]
    have hlast := hw k hpos (Nat.le_refl k)
    refine ⟨?_, hlast.step_state (hreset k) hbusy, fun j h1 hj => (hw j h1 hj).waits⟩
    have hdivide : s.isDivide = true → k = 33 := by
      intro hdiv
      rw [hdiv, if_pos rfl] at hk'
      exact hk'.1
    have hregs := h.waited_result hreset hdivide hwait hlast
    have hhart : (s.after is (k + 1)).hart = _ := (hlast.within_step (hreset k)).hart
    rw [hhart]
    exact Hart.ext hregs rfl rfl rfl rfl rfl rfl rfl rfl rfl rfl rfl rfl rfl rfl rfl

end FemtoRV32

end Filestick
