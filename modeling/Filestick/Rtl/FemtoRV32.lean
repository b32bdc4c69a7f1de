import Filestick.Lib.Machine
import Mathlib.Logic.Function.Basic

/-!
# The processor (`femtorv32_gracilis.v`)

The registers of the core are the fields of `FemtoRV32`, and its wires functions of them and of the
inputs of a clock (`CpuInput`).  Each `always` block is a function that reads the registers before
the clock: `clockRegisterFile`, `clockDivider`, `clockCsr`, `clockProtection` and `clockControl`,
the state machine.  `step` puts them together.

The one-hot register `state` is an enumeration, and `funct3Is[k]` is the test of the field against
`k`. The core is built with `EXTRABANK`, `ENABLE_MULDIV` and `ENABLE_PRIVMEM`, with `ADDR_WIDTH` 24
and `RESET_ADDR` 0x20000.
-/

namespace Filestick

/-! ### The decompressor -/

/-- Bits `hi` down to `lo` of a word. -/
def field (c : BitVec 32) (hi lo : ℕ) : BitVec (hi - lo + 1) := c.extractLsb hi lo

/-- `n` copies of bit `i`. -/
def spread (c : BitVec 32) (i n : ℕ) : BitVec n :=
  if c.getLsbD i then BitVec.allOnes n else 0#n

/-- `decompressor`: a compressed instruction is expanded, a long one is copied. -/
def decompressor (c : BitVec 32) : BitVec 32 :=
  let rcl : BitVec 5 := 0b01#2 ++ field c 4 2
  let rch : BitVec 5 := 0b01#2 ++ field c 9 7
  let rwl : BitVec 5 := field c 6 2
  let rwh : BitVec 5 := field c 11 7
  let shiftImm : BitVec 5 := field c 6 2
  let addi4spnImm : BitVec 12 :=
    0b00#2 ++ field c 10 7 ++ field c 12 11 ++ field c 5 5 ++ field c 6 6 ++ 0b00#2
  let lwswImm : BitVec 12 := 0b00000#5 ++ field c 5 5 ++ field c 12 10 ++ field c 6 6 ++ 0b00#2
  let lwspImm : BitVec 12 := 0b0000#4 ++ field c 3 2 ++ field c 12 12 ++ field c 6 4 ++ 0b00#2
  let swspImm : BitVec 12 := 0b0000#4 ++ field c 8 7 ++ field c 12 9 ++ 0b00#2
  let addi16spImm : BitVec 12 :=
    spread c 12 3 ++ field c 4 3 ++ field c 5 5 ++ field c 2 2 ++ field c 6 6 ++ 0b0000#4
  let addImm : BitVec 12 := spread c 12 7 ++ field c 6 2
  let bImm : BitVec 13 :=
    spread c 12 5 ++ field c 6 5 ++ field c 2 2 ++ field c 11 10 ++ field c 4 3 ++ 0b0#1
  let jalImm : BitVec 21 := spread c 12 10 ++ field c 8 8 ++ field c 10 9 ++ field c 6 6 ++
    field c 7 7 ++ field c 2 2 ++ field c 11 11 ++ field c 5 3 ++ 0b0#1
  let luiImm : BitVec 32 := spread c 12 15 ++ field c 6 2 ++ 0#12
  let jalBits : BitVec 20 := jalImm.extractLsb 20 20 ++ jalImm.extractLsb 10 1 ++
    jalImm.extractLsb 11 11 ++ jalImm.extractLsb 19 12
  let branch := fun funct3 : BitVec 3 => (bImm.extractLsb 12 12 ++ bImm.extractLsb 10 5 ++ 0#5 ++
    rch ++ funct3 ++ bImm.extractLsb 4 1 ++ bImm.extractLsb 11 11 ++ 0b1100011#7 : BitVec 32)
  let arith := fun (funct7 : BitVec 7) (funct3 : BitVec 3) =>
    (funct7 ++ rcl ++ rch ++ funct3 ++ rch ++ 0b0110011#7 : BitVec 32)
  if field c 1 0 = 0b11#2 then c
  else if field c 1 0 = 0b00#2 then
    if field c 15 13 = 0b000#3 then
      if field c 12 5 = 0#8 ∧ field c 4 2 = 0#3 then 0#32
      else addi4spnImm ++ 2#5 ++ 0b000#3 ++ rcl ++ 0b0010011#7
    else if field c 15 13 = 0b010#3 then lwswImm ++ rch ++ 0b010#3 ++ rcl ++ 0b0000011#7
    else if field c 15 13 = 0b110#3 then
      lwswImm.extractLsb 11 5 ++ rcl ++ rch ++ 0b010#3 ++ lwswImm.extractLsb 4 0 ++ 0b0100011#7
    else 0#32
  else if field c 1 0 = 0b01#2 then
    if field c 15 13 = 0b000#3 then addImm ++ rwh ++ 0b000#3 ++ rwh ++ 0b0010011#7
    else if field c 15 13 = 0b001#3 then jalBits ++ 1#5 ++ 0b1101111#7
    else if field c 15 13 = 0b010#3 then addImm ++ 0#5 ++ 0b000#3 ++ rwh ++ 0b0010011#7
    else if field c 15 13 = 0b011#3 then
      if rwh = 2#5 then addi16spImm ++ rwh ++ 0b000#3 ++ rwh ++ 0b0010011#7
      else luiImm.extractLsb 31 12 ++ rwh ++ 0b0110111#7
    else if field c 15 13 = 0b100#3 then
      if field c 11 10 = 0b00#2 then
        0b0000000#7 ++ shiftImm ++ rch ++ 0b101#3 ++ rch ++ 0b0010011#7
      else if field c 11 10 = 0b01#2 then
        0b0100000#7 ++ shiftImm ++ rch ++ 0b101#3 ++ rch ++ 0b0010011#7
      else if field c 11 10 = 0b10#2 then addImm ++ rch ++ 0b111#3 ++ rch ++ 0b0010011#7
      else if field c 12 12 = 0#1 then
        if field c 6 5 = 0b00#2 then arith 0b0100000#7 0b000#3
        else if field c 6 5 = 0b01#2 then arith 0b0000000#7 0b100#3
        else if field c 6 5 = 0b10#2 then arith 0b0000000#7 0b110#3
        else arith 0b0000000#7 0b111#3
      else 0#32
    else if field c 15 13 = 0b101#3 then jalBits ++ 0#5 ++ 0b1101111#7
    else if field c 15 13 = 0b110#3 then branch 0b000#3
    else branch 0b001#3
  else
    if field c 15 13 = 0b000#3 then
      0b0000000#7 ++ shiftImm ++ rwh ++ 0b001#3 ++ rwh ++ 0b0010011#7
    else if field c 15 13 = 0b010#3 then lwspImm ++ 2#5 ++ 0b010#3 ++ rwh ++ 0b0000011#7
    else if field c 15 13 = 0b100#3 then
      if field c 12 12 = 0#1 then
        if rwl = 0#5 then 0#12 ++ rwh ++ 0b000#3 ++ 0#5 ++ 0b1100111#7
        else 0b0000000#7 ++ rwl ++ 0#5 ++ 0b000#3 ++ rwh ++ 0b0110011#7
      else if rwh = 0#5 ∧ rwl = 0#5 then 0x00100073#32
      else if rwl = 0#5 then 0#12 ++ rwh ++ 0b000#3 ++ 1#5 ++ 0b1100111#7
      else 0b0000000#7 ++ rwl ++ rwh ++ 0b000#3 ++ rwh ++ 0b0110011#7
    else if field c 15 13 = 0b110#3 then
      swspImm.extractLsb 11 5 ++ rwl ++ 2#5 ++ 0b010#3 ++ swspImm.extractLsb 4 0 ++ 0b0100011#7
    else 0#32

/-! ### The registers and the inputs -/

/-- The states of the core. -/
inductive CpuState where
  | fetchInstr
  | waitInstr
  | execute
  | waitAluOrMem
  | waitAluOrMemSkip
deriving DecidableEq, Repr

/-- The inputs of a clock; `reset` is active low. -/
structure CpuInput where
  memRdata : BitVec 32
  memRbusy : Bool
  memWbusy : Bool
  interruptRequest : Bool
  reset : Bool

/-- The registers of `FemtoRV32`. -/
structure FemtoRV32 where
  registerFile : BitVec 6 → BitVec 32
  bankSelect : Bool
  rs1 : BitVec 32
  rs2 : BitVec 32
  dividend : BitVec 32
  divisor : BitVec 63
  quotient : BitVec 32
  quotientMsk : BitVec 32
  divResult : BitVec 32
  pc : BitVec 24
  instr : BitVec 30
  longInstr : Bool
  mepc : BitVec 24
  mtvec : BitVec 24
  mstatus : Bool
  mcause : Bool
  mscratch : BitVec 32
  cycles : BitVec 64
  sepc : BitVec 24
  sscratch : BitVec 32
  stvec : BitVec 24
  scause : BitVec 4
  cachedAddr : BitVec 22
  cachedData : BitVec 32
  fetchSecondHalf : Bool
  state : CpuState
  stval : BitVec 24
  privViolation : Bool
  sMode : Bool
  mMode : Bool

namespace FemtoRV32

variable (s : FemtoRV32) (i : CpuInput)

/-! ### Instruction decoding -/

/-- The instruction with its two lowest bits, which are not kept, as 0. -/
def ins : BitVec 32 := s.instr ++ 0#2

def rdId : BitVec 5 := s.ins.extractLsb 11 7

def funct3 : BitVec 3 := s.ins.extractLsb 14 12

def opcode : BitVec 5 := s.ins.extractLsb 6 2

def uimm : BitVec 32 := s.ins.extractLsb 31 12 ++ 0#12

def iimm : BitVec 32 := spread s.ins 31 21 ++ s.ins.extractLsb 30 20

def simm : BitVec 32 := spread s.ins 31 21 ++ s.ins.extractLsb 30 25 ++ s.ins.extractLsb 11 7

def bimm : BitVec 32 := spread s.ins 31 20 ++ s.ins.extractLsb 7 7 ++ s.ins.extractLsb 30 25 ++
  s.ins.extractLsb 11 8 ++ 0#1

def jimm : BitVec 32 := spread s.ins 31 12 ++ s.ins.extractLsb 19 12 ++ s.ins.extractLsb 20 20 ++
  s.ins.extractLsb 30 21 ++ 0#1

def isLoad : Bool := s.opcode == 0b00000#5

def isALUimm : Bool := s.opcode == 0b00100#5

def isAUIPC : Bool := s.opcode == 0b00101#5

def isStore : Bool := s.opcode == 0b01000#5

def isALUreg : Bool := s.opcode == 0b01100#5

def isLUI : Bool := s.opcode == 0b01101#5

def isBranch : Bool := s.opcode == 0b11000#5

def isJALR : Bool := s.opcode == 0b11001#5

def isJAL : Bool := s.opcode == 0b11011#5

def isSYSTEM : Bool := s.opcode == 0b11100#5

def isALU : Bool := s.isALUimm || s.isALUreg

def isILLEGAL : Bool := !(s.isLoad || s.isALUimm || s.isAUIPC || s.isStore || s.isALUreg ||
  s.isLUI || s.isBranch || s.isJALR || s.isJAL || s.isSYSTEM)

/-- A register number in the selected bank. -/
def banked (r : BitVec 5) : BitVec 6 := if s.bankSelect then r.setWidth 6 + 32#6 else r.setWidth 6

/-! ### The ALU -/

def aluIn1 : BitVec 32 := s.rs1

def aluIn2 : BitVec 32 := if s.isALUreg || s.isBranch then s.rs2 else s.iimm

def aluPlus : BitVec 32 := s.aluIn1 + s.aluIn2

def aluMinus : BitVec 33 := (1#1 ++ ~~~s.aluIn2) + (0#1 ++ s.aluIn1) + 1#33

def lt : Bool :=
  if s.aluIn1.getLsbD 31 != s.aluIn2.getLsbD 31 then s.aluIn1.getLsbD 31 else s.aluMinus.getLsbD 32

def ltu : Bool := s.aluMinus.getLsbD 32

def eq : Bool := s.aluMinus.setWidth 32 == 0#32

def shifterIn : BitVec 32 := if s.funct3 = 1#3 then s.aluIn1.reverse else s.aluIn1

def shifter : BitVec 32 :=
  ((BitVec.ofBool (s.ins.getLsbD 30 && s.aluIn1.getLsbD 31) ++ s.shifterIn).sshiftRight
    (s.aluIn2.extractLsb 4 0).toNat).setWidth 32

def leftshift : BitVec 32 := s.shifter.reverse

def funcM : Bool := s.ins.getLsbD 25

def isDivide : Bool := s.isALUreg && s.funcM && s.ins.getLsbD 14

def aluBusy : Bool := s.quotientMsk != 0#32

/-- The 64-bit product of the two signed 33-bit operands. -/
def multiply : BitVec 64 :=
  let isMULH := s.funct3 == 1#3
  let isMULHSU := s.funct3 == 2#3
  let sign1 := s.aluIn1.getLsbD 31 && isMULH
  let sign2 := s.aluIn2.getLsbD 31 && (isMULH || isMULHSU)
  (BitVec.ofBool sign1 ++ s.aluIn1).signExtend 64 * (BitVec.ofBool sign2 ++ s.aluIn2).signExtend 64

def aluOutBase : BitVec 32 :=
  if s.funct3 = 0#3 then
    if s.ins.getLsbD 30 && s.ins.getLsbD 5 then s.aluMinus.setWidth 32 else s.aluPlus
  else if s.funct3 = 1#3 then s.leftshift
  else if s.funct3 = 2#3 then (BitVec.ofBool s.lt).setWidth 32
  else if s.funct3 = 3#3 then (BitVec.ofBool s.ltu).setWidth 32
  else if s.funct3 = 4#3 then s.aluIn1 ^^^ s.aluIn2
  else if s.funct3 = 5#3 then s.shifter
  else if s.funct3 = 6#3 then s.aluIn1 ||| s.aluIn2
  else s.aluIn1 &&& s.aluIn2

def divSign : Bool := !s.ins.getLsbD 12 &&
  (if s.ins.getLsbD 13 then s.aluIn1.getLsbD 31
    else (s.aluIn1.getLsbD 31 != s.aluIn2.getLsbD 31) && s.aluIn2 != 0#32)

def aluOutMuldiv : BitVec 32 :=
  if s.ins.getLsbD 14 then (if s.divSign then -s.divResult else s.divResult)
  else if s.funct3 = 0#3 then s.multiply.extractLsb 31 0
  else s.multiply.extractLsb 63 32

def aluOut : BitVec 32 := if s.isALUreg && s.funcM then s.aluOutMuldiv else s.aluOutBase

def divstepDo : Bool := s.divisor ≤ s.dividend.setWidth 63

def dividendN : BitVec 32 := if s.divstepDo then s.dividend - s.divisor.setWidth 32 else s.dividend

def quotientN : BitVec 32 := if s.divstepDo then s.quotient ||| s.quotientMsk else s.quotient

def predicate : Bool :=
  if s.funct3 = 0#3 then s.eq
  else if s.funct3 = 1#3 then !s.eq
  else if s.funct3 = 4#3 then s.lt
  else if s.funct3 = 5#3 then !s.lt
  else if s.funct3 = 6#3 then s.ltu
  else if s.funct3 = 7#3 then !s.ltu
  else false

/-! ### Addresses -/

def pcInc : BitVec 24 := if s.longInstr then s.pc + 4#24 else s.pc + 2#24

def pcPlusImm : BitVec 24 :=
  s.pc +
    (if s.ins.getLsbD 3 then s.jimm else if s.ins.getLsbD 4 then s.uimm else s.bimm).setWidth 24

def loadstoreAddr : BitVec 24 :=
  s.rs1.setWidth 24 + (if s.ins.getLsbD 5 then s.simm else s.iimm).setWidth 24

def memAddr : BitVec 24 :=
  if s.state = .waitInstr ∨ s.state = .fetchInstr then
    (if s.fetchSecondHalf then s.pc + 4#24 else s.pc).extractLsb' 2 22 ++ 0#2
  else s.loadstoreAddr

/-! ### Interrupts and control registers -/

def interrupt : Bool := i.interruptRequest && s.mstatus && !s.mcause

def csr : BitVec 12 := s.ins.extractLsb 31 20

def interruptReturn : Bool := s.isSYSTEM && s.funct3 == 0#3 && s.csr == 0x302#12

def ecall : Bool := s.isSYSTEM && s.funct3 == 0#3 && s.csr == 0x000#12

def ebreak : Bool := s.isSYSTEM && s.funct3 == 0#3 && s.csr == 0x001#12

def supervisorReturn : Bool := s.isSYSTEM && s.funct3 == 0#3 && s.csr == 0x102#12

def csrRead : BitVec 32 :=
  if s.csr = 0x300#12 then 0#28 ++ BitVec.ofBool s.mstatus ++ 0#3
  else if s.csr = 0x340#12 then s.mscratch
  else if s.csr = 0x305#12 then s.mtvec.setWidth 32
  else if s.csr = 0x341#12 then s.mepc.setWidth 32
  else if s.csr = 0x342#12 then BitVec.ofBool s.mcause ++ 0#31
  else if s.csr = 0xC00#12 then s.cycles.extractLsb 31 0
  else if s.csr = 0xC80#12 then s.cycles.extractLsb 63 32
  else if s.csr = 0x105#12 then s.stvec.setWidth 32
  else if s.csr = 0x140#12 then s.sscratch
  else if s.csr = 0x141#12 then s.sepc.setWidth 32
  else if s.csr = 0x143#12 then s.stval.setWidth 32
  else if s.csr = 0x5C0#12 then (BitVec.ofBool s.bankSelect).setWidth 32
  else if s.csr = 0x142#12 then s.scause.setWidth 32
  else if s.csr.extractLsb' 6 6 = 0b110111#6 then s.registerFile (s.csr.extractLsb' 0 6)
  else 0#32

def csrModifier : BitVec 32 :=
  if s.ins.getLsbD 14 then (s.ins.extractLsb 19 15).setWidth 32 else s.rs1

def csrWrite : BitVec 32 :=
  if s.ins.extractLsb 13 12 = 0b10#2 then s.csrModifier ||| s.csrRead
  else if s.ins.extractLsb 13 12 = 0b11#2 then ~~~s.csrModifier &&& s.csrRead
  else s.csrModifier

/-- A CSR instruction is executed. -/
def csrExecute : Bool := s.isSYSTEM && s.funct3 != 0#3 && s.state == .execute

/-! ### Loads and stores -/

def memByteAccess : Bool := s.ins.extractLsb 13 12 == 0b00#2

def memHalfwordAccess : Bool := s.ins.extractLsb 13 12 == 0b01#2

def loadHalfword : BitVec 16 :=
  if s.loadstoreAddr.getLsbD 1 then i.memRdata.extractLsb' 16 16 else i.memRdata.extractLsb' 0 16

def loadByte : BitVec 8 :=
  if s.loadstoreAddr.getLsbD 0 then (s.loadHalfword i).extractLsb' 8 8
  else (s.loadHalfword i).extractLsb' 0 8

def loadData : BitVec 32 :=
  if s.memByteAccess then
    if s.ins.getLsbD 14 then (s.loadByte i).setWidth 32 else (s.loadByte i).signExtend 32
  else if s.memHalfwordAccess then
    if s.ins.getLsbD 14 then (s.loadHalfword i).setWidth 32 else (s.loadHalfword i).signExtend 32
  else i.memRdata

def memWdata : BitVec 32 :=
  let byte := fun k : ℕ => s.rs2.extractLsb' (8 * k) 8
  let a0 := s.loadstoreAddr.getLsbD 0
  let a1 := s.loadstoreAddr.getLsbD 1
  (if a0 then byte 0 else if a1 then byte 1 else byte 3) ++ (if a1 then byte 0 else byte 2) ++
    (if a0 then byte 0 else byte 1) ++ byte 0

def storeWmask : BitVec 4 :=
  if s.memByteAccess then
    if s.loadstoreAddr.getLsbD 1 then (if s.loadstoreAddr.getLsbD 0 then 0b1000#4 else 0b0100#4)
    else (if s.loadstoreAddr.getLsbD 0 then 0b0010#4 else 0b0001#4)
  else if s.memHalfwordAccess then (if s.loadstoreAddr.getLsbD 1 then 0b1100#4 else 0b0011#4)
  else 0b1111#4

def memRstrb : Bool := s.state == .execute && s.isLoad || s.state == .fetchInstr

/-- `mem_wmask`: the bytes of the addressed word that are written on this clock. -/
def memWmask : BitVec 4 := if s.state == .execute && s.isStore then s.storeWmask else 0#4

def aluWr : Bool := s.state == .execute && s.isALU

def writeBack : Bool := !(s.isBranch || s.isStore) &&
  (s.state == .execute || s.state == .waitAluOrMem || s.state == .waitAluOrMemSkip)

def writeBackData : BitVec 32 :=
  if s.isSYSTEM then s.csrRead
  else if s.isLUI then s.uimm
  else if s.isALU then s.aluOut
  else if s.isAUIPC then s.pcPlusImm.setWidth 32
  else if s.isJALR || s.isJAL then s.pcInc.setWidth 32
  else if s.isLoad then s.loadData i
  else 0#32

/-! ### The next instruction -/

def needToWait : Bool := s.isLoad || s.isStore || s.isDivide

def pcNew : BitVec 24 :=
  if s.isJALR then s.aluPlus.extractLsb' 1 23 ++ 0#1
  else if s.isJAL || s.isBranch && s.predicate then s.pcPlusImm
  else if s.interruptReturn then s.mepc
  else if s.supervisorReturn then s.sepc
  else s.pcInc

def currentCacheHit : Bool := s.cachedAddr == s.pc.extractLsb' 2 22

def nextCacheHit : Bool := s.cachedAddr == s.pcNew.extractLsb' 2 22

def cachedMem : BitVec 32 := if s.currentCacheHit then s.cachedData else i.memRdata

def currentUnalignedLong : Bool := (s.cachedMem i).extractLsb' 16 2 == 0b11#2 && s.pc.getLsbD 1

def nextUnalignedLong : Bool := s.cachedData.extractLsb' 16 2 == 0b11#2 && s.pcNew.getLsbD 1

def decompInput : BitVec 32 :=
  if s.pc.getLsbD 1 then i.memRdata.extractLsb' 0 16 ++ (s.cachedMem i).extractLsb' 16 16
  else s.cachedMem i

def decompressed : BitVec 32 := decompressor (s.decompInput i)

/-! ### Memory protection -/

def privMode : Bool := s.sMode || s.mMode

/-- `ecall | ebreak | isILLEGAL`: the instruction itself traps. -/
def traps : Bool := s.ecall || s.ebreak || s.isILLEGAL

def csrSClear : Bool := s.csrExecute && s.csr == 0x5C1#12

def sSet : Bool := s.state == .execute && (s.ecall || s.ebreak || s.isILLEGAL || s.privViolation)

def mSet : Bool := s.state == .execute && s.interrupt i

def sClear : Bool := s.state == .execute && (s.supervisorReturn || s.csrSClear)

def mClear : Bool := s.state == .execute && s.interruptReturn

/-- `priv_required`: loads and stores below 64k. -/
def privRequired : Bool := (s.isLoad || s.isStore) && s.memAddr.toNat < 65536

/-! ### The clock -/

def clockRegisterFile : BitVec 6 → BitVec 32 :=
  if s.writeBack && s.rdId != 0#5 then
    Function.update s.registerFile (s.banked s.rdId) (s.writeBackData i)
  else s.registerFile

def clockDivider : FemtoRV32 :=
  if s.isDivide && s.aluWr then
    { s with
      dividend := if !s.ins.getLsbD 12 && s.aluIn1.getLsbD 31 then -s.aluIn1 else s.aluIn1
      divisor := (if !s.ins.getLsbD 12 && s.aluIn2.getLsbD 31 then -s.aluIn2 else s.aluIn2) ++ 0#31
      quotient := 0#32
      quotientMsk := 1#32 <<< 31
      divResult := if s.ins.getLsbD 13 then s.dividendN else s.quotientN }
  else
    { s with
      dividend := s.dividendN
      divisor := s.divisor >>> 1
      quotient := s.quotientN
      quotientMsk := s.quotientMsk >>> 1
      divResult := if s.ins.getLsbD 13 then s.dividendN else s.quotientN }

def clockCsr : FemtoRV32 :=
  if !i.reset then { s with mstatus := false, bankSelect := false }
  else if s.csrExecute then
    { s with
      mscratch := if s.csr = 0x340#12 then s.csrWrite else s.mscratch
      mstatus := if s.csr = 0x300#12 then s.csrWrite.getLsbD 3 else s.mstatus
      mtvec := if s.csr = 0x305#12 then s.csrWrite.setWidth 24 else s.mtvec
      stvec := if s.csr = 0x105#12 then s.csrWrite.setWidth 24 else s.stvec
      sscratch := if s.csr = 0x140#12 then s.csrWrite else s.sscratch
      bankSelect := if s.csr = 0x5C0#12 then s.csrWrite.getLsbD 0 else s.bankSelect }
  else s

/-- `s_mode`, `m_mode`, `priv_violation` and `stval`. -/
def clockProtection : FemtoRV32 :=
  { s with
    sMode := if s.sClear then false else if s.sSet || !i.reset then true else s.sMode
    mMode := if s.mClear then false else if s.mSet i then true else s.mMode
    privViolation := if !i.reset then false else if s.privMode then false
      else if s.privRequired then true else s.privViolation
    stval := if !i.reset then 0#24 else if s.privMode then s.stval
      else if s.privRequired then s.memAddr else s.stval }

/-- `WAIT_INSTR`: the instruction is decoded, unless its second half has yet to be fetched. -/
def clockWaitInstr : FemtoRV32 :=
  if i.memRbusy then s
  else
    { s with
      cachedAddr := if !s.currentCacheHit || s.fetchSecondHalf then s.memAddr.extractLsb' 2 22
        else s.cachedAddr
      cachedData := if !s.currentCacheHit || s.fetchSecondHalf then i.memRdata else s.cachedData
      rs1 := s.registerFile (s.banked ((s.decompressed i).extractLsb 19 15))
      rs2 := s.registerFile (s.banked ((s.decompressed i).extractLsb 24 20))
      instr := (s.decompressed i).extractLsb' 2 30
      longInstr := (s.decompInput i).extractLsb' 0 2 == 0b11#2
      fetchSecondHalf := s.currentUnalignedLong i && !s.fetchSecondHalf
      state := if s.currentUnalignedLong i && !s.fetchSecondHalf then .fetchInstr else .execute }

/-- `EXECUTE`: an interrupt, a trap, or the next instruction. -/
def clockExecute : FemtoRV32 :=
  if s.interrupt i then
    { s with
      pc := s.mtvec
      mepc := s.pcNew
      mcause := true
      state := if s.needToWait then .waitAluOrMem else .fetchInstr }
  else if s.ecall || s.ebreak || s.isILLEGAL || s.privViolation then
    { s with
      pc := s.stvec
      sepc := s.pcNew
      scause := if s.ecall then 0x8#4 else if s.ebreak then 0x3#4
        else if s.privViolation then 0x5#4 else 0x2#4
      state := if s.needToWait then .waitAluOrMem else .fetchInstr }
  else
    { s with
      pc := s.pcNew
      mcause := if s.interruptReturn then false else s.mcause
      scause := if s.supervisorReturn then 0#4 else s.scause
      state := if s.nextCacheHit && !s.nextUnalignedLong then
          (if s.needToWait then .waitAluOrMemSkip else .waitInstr)
        else (if s.needToWait then .waitAluOrMem else .fetchInstr)
      fetchSecondHalf := s.nextCacheHit && s.nextUnalignedLong }

/-- The state machine. -/
def clockControl : FemtoRV32 :=
  if !i.reset then
    { s with
      state := .waitAluOrMem
      pc := 0x20000#24
      mcause := false
      cachedAddr := BitVec.allOnes 22
      fetchSecondHalf := false }
  else
    match s.state with
    | .waitInstr => s.clockWaitInstr i
    | .execute => s.clockExecute i
    | .waitAluOrMem =>
      { s with
        state := if s.aluBusy || i.memRbusy || i.memWbusy then .waitAluOrMem else .fetchInstr }
    | .waitAluOrMemSkip =>
      { s with
        state := if s.aluBusy || i.memRbusy || i.memWbusy then .waitAluOrMemSkip else .waitInstr }
    | .fetchInstr => { s with state := .waitInstr }

/-- One rising edge of `clk`: every block reads the registers before the edge. -/
def step : FemtoRV32 :=
  { s.clockControl i with
    registerFile := s.clockRegisterFile i
    dividend := s.clockDivider.dividend
    divisor := s.clockDivider.divisor
    quotient := s.clockDivider.quotient
    quotientMsk := s.clockDivider.quotientMsk
    divResult := s.clockDivider.divResult
    cycles := s.cycles + 1#64
    bankSelect := (s.clockCsr i).bankSelect
    mscratch := (s.clockCsr i).mscratch
    mstatus := (s.clockCsr i).mstatus
    mtvec := (s.clockCsr i).mtvec
    stvec := (s.clockCsr i).stvec
    sscratch := (s.clockCsr i).sscratch
    sMode := (s.clockProtection i).sMode
    mMode := (s.clockProtection i).mMode
    privViolation := (s.clockProtection i).privViolation
    stval := (s.clockProtection i).stval }

/-- The states that a reset and any inputs after it lead to. -/
def Reachable (s : FemtoRV32) : Prop :=
  ∃ (s₀ : FemtoRV32) (i₀ : CpuInput) (is : List CpuInput),
    i₀.reset = false ∧ s = Machine.run step (s₀.step i₀) is

end FemtoRV32

end Filestick
