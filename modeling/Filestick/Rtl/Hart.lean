import Filestick.Lib.Riscv

/-!
# The processor as its programmer sees it

`Hart` is what a program can see of the processor: two banks of registers, a program counter of 24
bits, and the control registers.  `execute` is one instruction, with the interrupt or the trap that
is taken behind it.  `Run` is a run of a program on a memory.

A load or a store below 64 KiB outside the privileged modes is `pending` during the next
instruction, which is executed, and behind which the trap is taken.
-/

namespace Filestick

open Riscv

/-- What a program sees. -/
@[ext]
structure Hart where
  regs : Bool → Reg → Word
  bank : Bool
  pc : BitVec 24
  mstatus : Bool
  mcause : Bool
  mtvec : BitVec 24
  mepc : BitVec 24
  mscratch : Word
  stvec : BitVec 24
  sepc : BitVec 24
  sscratch : Word
  scause : BitVec 4
  stval : BitVec 24
  sMode : Bool
  mMode : Bool
  pending : Bool

/-- What comes from outside during an instruction: whether an interrupt is requested, the count of
the clocks, and the word that the bus has answered to a load. -/
structure Outside where
  irq : Bool
  cycles : BitVec 64
  data : Word

namespace Hart

variable (h : Hart) (e : Outside)

/-- What a register holds. -/
def get (r : Reg) : Word := if r = 0#5 then 0#32 else h.regs h.bank r

def privileged : Bool := h.sMode || h.mMode

/-- What a control register holds. -/
def readCsr (num : BitVec 12) : Word :=
  if num = 0x300#12 then (if h.mstatus then 8#32 else 0#32)
  else if num = 0x340#12 then h.mscratch
  else if num = 0x305#12 then h.mtvec.setWidth 32
  else if num = 0x341#12 then h.mepc.setWidth 32
  else if num = 0x342#12 then (if h.mcause then 0x80000000#32 else 0#32)
  else if num = 0xC00#12 then e.cycles.extractLsb' 0 32
  else if num = 0xC80#12 then e.cycles.extractLsb' 32 32
  else if num = 0x105#12 then h.stvec.setWidth 32
  else if num = 0x140#12 then h.sscratch
  else if num = 0x141#12 then h.sepc.setWidth 32
  else if num = 0x143#12 then h.stval.setWidth 32
  else if num = 0x5C0#12 then (if h.bank then 1#32 else 0#32)
  else if num = 0x142#12 then h.scause.setWidth 32
  else if num.extractLsb' 6 6 = 0b110111#6 then
    (if num.extractLsb' 0 5 = 0#5 then 0#32 else h.regs (num.getLsbD 5) (num.extractLsb' 0 5))
  else 0#32

/-- The address of a load or a store. -/
def address (base : Reg) (imm : BitVec 12) : BitVec 24 :=
  (h.get base + imm.signExtend 32).setWidth 24

/-- A multiplication or a division of the core, whose `mulhsu` takes the second operand as the
signed one. -/
def muldiv (op : MulDiv) (x y : Word) : Word :=
  if op = .mulhsu then op.eval y x else op.eval x y

/-- The register that an instruction sets, and its value; `next` is the place behind it. -/
def result (next : BitVec 24) : Instr → Option (Reg × Word)
  | .lui rd imm => some (rd, imm ++ 0#12)
  | .auipc rd imm => some (rd, (h.pc + (imm ++ 0#12).setWidth 24).setWidth 32)
  | .jal rd _ => some (rd, next.setWidth 32)
  | .jalr rd _ _ => some (rd, next.setWidth 32)
  | .branch .. => none
  | .load op rd rs1 imm => some (rd, op.ofWord ((h.address rs1 imm).setWidth 2) e.data)
  | .store .. => none
  | .opImm op rd rs1 imm => some (rd, op.eval (h.get rs1) (imm.signExtend 32))
  | .shift op rd rs1 shamt => some (rd, op.eval (h.get rs1) shamt)
  | .opReg op rd rs1 rs2 => some (rd, op.eval (h.get rs1) (h.get rs2))
  | .muldiv op rd rs1 rs2 => some (rd, muldiv op (h.get rs1) (h.get rs2))
  | .csr _ rd _ num => some (rd, h.readCsr e num)
  | .csri _ rd _ num => some (rd, h.readCsr e num)
  | .ecall | .ebreak | .mret | .sret => none

/-- Where the program goes on, without an interrupt or a trap. -/
def target (next : BitVec 24) : Instr → BitVec 24
  | .jal _ imm => h.pc + (imm ++ 0#1).signExtend 24
  | .jalr _ rs1 imm => (h.address rs1 imm).extractLsb' 1 23 ++ 0#1
  | .branch op rs1 rs2 imm =>
    if op.taken (h.get rs1) (h.get rs2) then h.pc + (imm ++ 0#1).signExtend 24 else next
  | .mret => h.mepc
  | .sret => h.sepc
  | _ => next

/-- The access of an instruction to the memory. -/
def access : Instr → Option (Access 22)
  | .load _ _ rs1 imm => some (.read ((h.address rs1 imm).extractLsb' 2 22))
  | .store op rs1 rs2 imm => some (.write (op.bytes (h.address rs1 imm) (h.get rs2)))
  | _ => none

/-- A store is to a multiple of its size. -/
def Aligned : Instr → Prop
  | .store op rs1 _ imm => op.Aligned (h.address rs1 imm)
  | _ => True

/-- The control register that an instruction sets, and its value. -/
def csrResult : Instr → Option (BitVec 12 × Word)
  | .csr op _ rs1 num => some (num, op.eval (h.readCsr e num) (h.get rs1))
  | .csri op _ uimm num => some (num, op.eval (h.readCsr e num) (uimm.setWidth 32))
  | _ => none

/-- A register has been set. -/
def write (p : Option (Reg × Word)) : Hart :=
  match p with
  | none => h
  | some (rd, x) =>
    if rd = 0#5 then h
    else { h with regs := Function.update h.regs h.bank (Function.update (h.regs h.bank) rd x) }

/-- A control register has been set. -/
def writeCsr (p : Option (BitVec 12 × Word)) : Hart :=
  match p with
  | none => h
  | some (num, x) =>
    { h with
      mscratch := if num = 0x340#12 then x else h.mscratch
      mstatus := if num = 0x300#12 then x.getLsbD 3 else h.mstatus
      mtvec := if num = 0x305#12 then x.setWidth 24 else h.mtvec
      stvec := if num = 0x105#12 then x.setWidth 24 else h.stvec
      sscratch := if num = 0x140#12 then x else h.sscratch
      bank := if num = 0x5C0#12 then x.getLsbD 0 else h.bank }

/-- An interrupt is taken. -/
def interrupted : Bool := e.irq && h.mstatus && !h.mcause

/-- The cause of a trap, if there is one. -/
def trap : Instr → Option (BitVec 4)
  | .ecall => some 8#4
  | .ebreak => some 3#4
  | _ => if h.pending then some 5#4 else none

/-- The address of a load or a store that needs a privileged mode. -/
def violation : Instr → Option (BitVec 24)
  | .load _ _ rs1 imm | .store _ rs1 _ imm =>
    if !h.privileged && (h.address rs1 imm).toNat < 65536 then some (h.address rs1 imm) else none
  | _ => none

/-- `sret` and a write to the register 0x5C1 leave the supervisor mode. -/
def leavesS (i : Instr) : Bool :=
  i = .sret || (h.csrResult e i).any fun p => p.1 = 0x5C1#12

/-- The supervisor mode behind an instruction; a trap enters it, also one that is lost. -/
def sModeAfter (i : Instr) : Bool :=
  if h.leavesS e i then false else if (h.trap i).isSome then true else h.sMode

/-- The machine mode behind an instruction. -/
def mModeAfter (i : Instr) : Bool :=
  if i = .mret then false else if h.interrupted e then true else h.mMode

/-- The place to go on at.  A trap is lost to an interrupt. -/
def redirect (target : BitVec 24) (i : Instr) : Hart :=
  if h.interrupted e then { h with pc := h.mtvec, mepc := target, mcause := true }
  else
    match h.trap i with
    | some cause => { h with pc := h.stvec, sepc := target, scause := cause }
    | none =>
      { h with
        pc := target
        mcause := if i = .mret then false else h.mcause
        scause := if i = .sret then 0#4 else h.scause }

/-- What an instruction does besides setting its register. -/
def retire (len : BitVec 24) (i : Instr) : Hart :=
  let redirected := h.redirect e (h.target (h.pc + len) i) i
  let written := h.writeCsr (h.csrResult e i)
  { redirected with
    bank := written.bank
    mstatus := written.mstatus
    mtvec := written.mtvec
    mscratch := written.mscratch
    stvec := written.stvec
    sscratch := written.sscratch
    sMode := h.sModeAfter e i
    mMode := h.mModeAfter e i
    stval := (h.violation i).getD h.stval
    pending := (!h.privileged && h.pending || (h.violation i).isSome) &&
      !(h.sModeAfter e i || h.mModeAfter e i) }

/-- One instruction, which is `len` bytes long. -/
def execute (len : BitVec 24) (i : Instr) : Hart :=
  { h.retire e len i with regs := (h.write (h.result e (h.pc + len) i)).regs }

/-! ### On a memory -/

/-- The word that the memory answers to an instruction. -/
def answer (m : BitVec 24 → BitVec 8) (i : Instr) : Word :=
  match h.access i with
  | some (.read w) => word m w
  | _ => 0#32

/-- A load reads the memory by bytes. -/
theorem result_load (m : BitVec 24 → BitVec 8) (irq : Bool) (cycles : BitVec 64)
    (next : BitVec 24) (op : Load) (rd rs1 : Reg) (imm : BitVec 12) :
    h.result ⟨irq, cycles, h.answer m (.load op rd rs1 imm)⟩ next (.load op rd rs1 imm) =
      some (rd, op.read m (h.address rs1 imm)) := by
  rw [Load.read_eq_ofWord]
  rfl

/-- Only a load depends on the word from outside. -/
theorem execute_congr {e e' : Outside} {i : Instr} (len : BitVec 24)
    (hirq : e.irq = e'.irq) (hcycles : e.cycles = e'.cycles)
    (hdata : ∀ op rd rs1 imm, i = .load op rd rs1 imm → e.data = e'.data) :
    h.execute e len i = h.execute e' len i := by
  obtain ⟨irq, cycles, data⟩ := e
  obtain ⟨irq', cycles', data'⟩ := e'
  obtain rfl : irq = irq' := hirq
  obtain rfl : cycles = cycles' := hcycles
  cases i with
  | load op rd rs1 imm =>
    obtain rfl : data = data' := hdata op rd rs1 imm rfl
    rfl
  | _ => rfl

/-- Instructions of the program in `code`, one after the other, on a memory. -/
inductive Run (code : BitVec 24 → BitVec 8) (h : Hart) (m : BitVec 24 → BitVec 8) :
    ℕ → Hart → (BitVec 24 → BitVec 8) → Prop
  | start : Run code h m 0 h m
  | next {n len : ℕ} {h' : Hart} {m' : BitVec 24 → BitVec 8} {i : Instr}
      (before : Run code h m n h' m') (decodes : Decodes (parcel code h'.pc) i len) (irq : Bool)
      (cycles : BitVec 64) :
      Run code h m (n + 1) (h'.execute ⟨irq, cycles, h'.answer m' i⟩ (BitVec.ofNat 24 len) i)
        (afterAccess m' (h'.access i))

end Hart

end Filestick
