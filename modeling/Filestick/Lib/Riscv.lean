import Mathlib.Data.Nat.Notation
import Mathlib.Logic.Function.Basic

/-!
# The instruction set RV32IMC with control registers

* `Instr`, `encode`: the instructions, and their 32-bit format.
* `Branch.taken`, `ImmOp.eval`, `ShiftOp.eval`, `Op.eval`, `MulDiv.eval`: what they compute.
* `Load.read`, `Store.bytes`: memory by bytes, with addresses of `n + 2` bits; `Access` is what the
  bus sees of them, `afterAccess` the memory after it, and `Load.read_eq_ofWord` reads through it.
* `Compressed`, `Compressed.encode`, `Compressed.expand`: the 16-bit instructions.
* `parcel`: the 32 bits at a program counter.

A load ignores the address bits below its size.
-/

namespace Filestick.Riscv

/-- A word. -/
abbrev Word := BitVec 32

/-- A register by its number. -/
abbrev Reg := BitVec 5

/-! ### What the instructions compute -/

inductive Branch where
  | beq
  | bne
  | blt
  | bge
  | bltu
  | bgeu
deriving DecidableEq, Repr

/-- The condition of a branch. -/
def Branch.taken (x y : Word) : Branch → Bool
  | .beq => x == y
  | .bne => x != y
  | .blt => x.slt y
  | .bge => !x.slt y
  | .bltu => x.ult y
  | .bgeu => !x.ult y

inductive ImmOp where
  | addi
  | slti
  | sltiu
  | xori
  | ori
  | andi
deriving DecidableEq, Repr

/-- An operation with an immediate operand. -/
def ImmOp.eval (x y : Word) : ImmOp → Word
  | .addi => x + y
  | .slti => if x.slt y then 1#32 else 0#32
  | .sltiu => if x.ult y then 1#32 else 0#32
  | .xori => x ^^^ y
  | .ori => x ||| y
  | .andi => x &&& y

inductive ShiftOp where
  | sll
  | srl
  | sra
deriving DecidableEq, Repr

/-- A shift. -/
def ShiftOp.eval (x : Word) (n : BitVec 5) : ShiftOp → Word
  | .sll => x <<< n.toNat
  | .srl => x >>> n.toNat
  | .sra => x.sshiftRight n.toNat

inductive Op where
  | add
  | sub
  | slt
  | sltu
  | xor
  | or
  | and
  | shift (op : ShiftOp)
deriving DecidableEq, Repr

/-- An operation on two registers. -/
def Op.eval (x y : Word) : Op → Word
  | .add => x + y
  | .sub => x - y
  | .slt => if x.slt y then 1#32 else 0#32
  | .sltu => if x.ult y then 1#32 else 0#32
  | .xor => x ^^^ y
  | .or => x ||| y
  | .and => x &&& y
  | .shift op => op.eval x (y.setWidth 5)

inductive MulDiv where
  | mul
  | mulh
  | mulhsu
  | mulhu
  | div
  | divu
  | rem
  | remu
deriving DecidableEq, Repr

/-- A multiplication or a division; the quotient by 0 is all ones, and its remainder the
dividend. -/
def MulDiv.eval (x y : Word) : MulDiv → Word
  | .mul => x * y
  | .mulh => (x.signExtend 64 * y.signExtend 64).extractLsb' 32 32
  | .mulhsu => (x.signExtend 64 * y.setWidth 64).extractLsb' 32 32
  | .mulhu => (x.setWidth 64 * y.setWidth 64).extractLsb' 32 32
  | .div => if y = 0#32 then BitVec.allOnes 32 else x.sdiv y
  | .divu => if y = 0#32 then BitVec.allOnes 32 else x / y
  | .rem => if y = 0#32 then x else x.srem y
  | .remu => if y = 0#32 then x else x % y

inductive CsrOp where
  | rw
  | rs
  | rc
deriving DecidableEq, Repr

/-- What is written to a control register that holds `old`. -/
def CsrOp.eval (old x : Word) : CsrOp → Word
  | .rw => x
  | .rs => x ||| old
  | .rc => ~~~x &&& old

/-! ### Memory -/

section Memory

variable {n : ℕ}

/-- The half word at a half word address. -/
def half (m : BitVec (n + 1) → BitVec 8) (h : BitVec n) : BitVec 16 := m (h ++ 1#1) ++ m (h ++ 0#1)

/-- The word at a word address. -/
def word (m : BitVec (n + 2) → BitVec 8) (w : BitVec n) : Word :=
  m (w ++ 3#2) ++ m (w ++ 2#2) ++ m (w ++ 1#2) ++ m (w ++ 0#2)

inductive Load where
  | lb
  | lh
  | lw
  | lbu
  | lhu
deriving DecidableEq, Repr

/-- What a load reads. -/
def Load.read (m : BitVec (n + 2) → BitVec 8) (a : BitVec (n + 2)) : Load → Word
  | .lb => (m a).signExtend 32
  | .lh => (half m (a.extractLsb' 1 (n + 1))).signExtend 32
  | .lw => word m (a.extractLsb' 2 n)
  | .lbu => (m a).setWidth 32
  | .lhu => (half m (a.extractLsb' 1 (n + 1))).setWidth 32

inductive Store where
  | sb
  | sh
  | sw
deriving DecidableEq, Repr

/-- The address is a multiple of the size. -/
def Store.Aligned (a : BitVec (n + 2)) : Store → Prop
  | .sb => True
  | .sh => a.getLsbD 0 = false
  | .sw => a.getLsbD 0 = false ∧ a.getLsbD 1 = false

/-- The bytes that a store writes, for an address that is aligned. -/
def Store.bytes (a : BitVec (n + 2)) (x : Word) (op : Store) (b : BitVec (n + 2)) :
    Option (BitVec 8) :=
  match op with
  | .sb => if b = a then some (x.extractLsb' 0 8) else none
  | .sh =>
    if b.extractLsb' 1 (n + 1) = a.extractLsb' 1 (n + 1) then
      some (if b.getLsbD 0 then x.extractLsb' 8 8 else x.extractLsb' 0 8)
    else none
  | .sw =>
    if b.extractLsb' 2 n = a.extractLsb' 2 n then
      some (x.extractLsb' (8 * (b.setWidth 2).toNat) 8)
    else none

theorem append_low (a : BitVec (n + 2)) : a.extractLsb' 2 n ++ a.setWidth 2 = a := by
  rw [BitVec.setWidth_eq_extractLsb' (Nat.le_add_left 2 n)]
  exact BitVec.extractLsb'_append_extractLsb'

/-- What a store puts at the offset `k` of the word at its address. -/
def Store.lane (offset : BitVec 2) (x : Word) (k : BitVec 2) : Store → Option (BitVec 8)
  | .sb => if k = offset then some (x.extractLsb' 0 8) else none
  | .sh =>
    if k.getLsbD 1 = offset.getLsbD 1 then
      some (if k.getLsbD 0 then x.extractLsb' 8 8 else x.extractLsb' 0 8)
    else none
  | .sw => some (x.extractLsb' (8 * k.toNat) 8)

theorem eq_iff_low {a b : BitVec (n + 2)} :
    b = a ↔ b.extractLsb' 2 n = a.extractLsb' 2 n ∧ b.setWidth 2 = a.setWidth 2 := by
  constructor
  · rintro rfl
    exact ⟨rfl, rfl⟩
  · rintro ⟨hhigh, hlow⟩
    rw [← append_low a, ← append_low b, hhigh, hlow]

theorem half_eq_iff {a b : BitVec (n + 2)} :
    b.extractLsb' 1 (n + 1) = a.extractLsb' 1 (n + 1) ↔
      b.extractLsb' 2 n = a.extractLsb' 2 n ∧ b.getLsbD 1 = a.getLsbD 1 := by
  constructor
  · intro h
    have hbit (k : ℕ) (hk : k < n + 1) : b.getLsbD (1 + k) = a.getLsbD (1 + k) := by
      have h' := congrArg (fun v => v.getLsbD k) h
      simpa only [BitVec.getLsbD_extractLsb', hk, decide_true, Bool.true_and] using h'
    constructor
    · apply BitVec.eq_of_getLsbD_eq
      intro k hk
      rw [BitVec.getLsbD_extractLsb', BitVec.getLsbD_extractLsb',
        (by omega : 2 + k = 1 + (k + 1)), hbit (k + 1) (by omega)]
    · exact hbit 0 (by omega)
  · rintro ⟨hhigh, hlow⟩
    apply BitVec.eq_of_getLsbD_eq
    intro k hk
    rw [BitVec.getLsbD_extractLsb', BitVec.getLsbD_extractLsb']
    cases k with
    | zero => rw [Nat.add_zero, hlow]
    | succ k =>
      have h' := congrArg (fun v => v.getLsbD k) hhigh
      simp only [BitVec.getLsbD_extractLsb', (by omega : k < n), decide_true, Bool.true_and] at h'
      rw [(by omega : 1 + (k + 1) = 2 + k), h']

/-- **A store** writes to the word at its address. -/
theorem Store.bytes_eq_lane (a b : BitVec (n + 2)) (x : Word) (op : Store) :
    op.bytes a x b =
      if b.extractLsb' 2 n = a.extractLsb' 2 n then op.lane (a.setWidth 2) x (b.setWidth 2)
      else none := by
  have hbit (v : BitVec (n + 2)) (k : ℕ) (hk : k < 2) : (v.setWidth 2).getLsbD k = v.getLsbD k := by
    rw [BitVec.getLsbD_setWidth, decide_eq_true hk, Bool.true_and]
  cases op with
  | sb =>
    rw [bytes, lane]
    simp only [eq_iff_low (a := a) (b := b)]
    by_cases hhigh : b.extractLsb' 2 n = a.extractLsb' 2 n
    · simp only [hhigh, true_and, if_true]
    · simp only [hhigh, false_and, if_false]
  | sh =>
    rw [bytes, lane, hbit b 0 (by decide), hbit b 1 (by decide), hbit a 1 (by decide)]
    simp only [half_eq_iff]
    by_cases hhigh : b.extractLsb' 2 n = a.extractLsb' 2 n
    · simp only [hhigh, true_and, if_true]
    · simp only [hhigh, false_and, if_false]
  | sw => rfl

/-- What a load leaves of the word at its address. -/
def Load.ofWord (offset : BitVec 2) (w : Word) : Load → Word
  | .lb => (w.extractLsb' (8 * offset.toNat) 8).signExtend 32
  | .lh => (w.extractLsb' (if offset.getLsbD 1 then 16 else 0) 16).signExtend 32
  | .lw => w
  | .lbu => (w.extractLsb' (8 * offset.toNat) 8).setWidth 32
  | .lhu => (w.extractLsb' (if offset.getLsbD 1 then 16 else 0) 16).setWidth 32

/-- An access to the memory: a word that is read, or bytes that are written. -/
inductive Access (n : ℕ) where
  | read (w : BitVec n)
  | write (bytes : BitVec (n + 2) → Option (BitVec 8))

/-- The memory after an access. -/
def Access.apply (m : BitVec (n + 2) → BitVec 8) : Access n → BitVec (n + 2) → BitVec 8
  | .read _ => m
  | .write bytes => fun b => (bytes b).getD (m b)

/-- The memory after at most one access. -/
def afterAccess (m : BitVec (n + 2) → BitVec 8) : Option (Access n) → BitVec (n + 2) → BitVec 8
  | none => m
  | some a => a.apply m

/-- A byte of a word. -/
theorem word_byte (m : BitVec (n + 2) → BitVec 8) (w : BitVec n) (k : BitVec 2) :
    (word m w).extractLsb' (8 * k.toNat) 8 = m (w ++ k) := by
  have hk : k = 0#2 ∨ k = 1#2 ∨ k = 2#2 ∨ k = 3#2 := by revert k; decide
  unfold word
  rcases hk with rfl | rfl | rfl | rfl <;>
    simp (disch := decide) only [BitVec.extractLsb'_append_eq_of_add_le,
      BitVec.extractLsb'_append_eq_of_le] <;>
    exact BitVec.extractLsb'_eq_self

/-- A half of a word. -/
theorem half_word (m : BitVec (n + 2) → BitVec 8) (a : BitVec (n + 2)) :
    half m (a.extractLsb' 1 (n + 1)) =
      (word m (a.extractLsb' 2 n)).extractLsb' (if a.getLsbD 1 then 16 else 0) 16 := by
  have hhi (b : BitVec 1) : a.extractLsb' 1 (n + 1) ++ b =
      a.extractLsb' 2 n ++ (BitVec.ofBool (a.getLsbD 1) ++ b : BitVec 2) := by
    apply BitVec.eq_of_getLsbD_eq
    intro k hk
    simp only [BitVec.getLsbD_append, BitVec.getLsbD_extractLsb']
    rcases k with _ | _ | k
    · rfl
    · simp
    · have hlow : ¬k + 1 + 1 < 1 ∧ ¬k + 1 + 1 < 2 := by omega
      have hhigh : k + 1 + 1 - 1 < n + 1 ∧ k + 1 + 1 - 2 < n := by omega
      have hbit : 1 + (k + 1 + 1 - 1) = 2 + (k + 1 + 1 - 2) := by omega
      simp only [hlow, if_false, hhigh, hbit]
  unfold half
  rw [hhi, hhi]
  unfold word
  have hbits : BitVec.ofBool false ++ 1#1 = 1#2 ∧ BitVec.ofBool false ++ 0#1 = 0#2 ∧
      BitVec.ofBool true ++ 1#1 = 3#2 ∧ BitVec.ofBool true ++ 0#1 = 2#2 := by decide
  apply BitVec.eq_of_getLsbD_eq
  intro k hk
  cases a.getLsbD 1 with
  | false =>
    rw [hbits.1, hbits.2.1, if_neg Bool.false_ne_true]
    simp only [BitVec.getLsbD_append, BitVec.getLsbD_extractLsb', Nat.zero_add, hk]
    rw [if_pos (by omega : k - 8 < 8)]
    rfl
  | true =>
    rw [hbits.2.2.1, hbits.2.2.2, if_pos rfl]
    have hk8 : ¬16 + k < 8 ∧ ¬16 + k - 8 < 8 ∧ 16 + k - 8 - 8 = k := by omega
    simp only [BitVec.getLsbD_append, BitVec.getLsbD_extractLsb', hk, hk8, if_false]
    rfl

/-- A load is a read of the word at its address. -/
theorem Load.read_eq_ofWord (m : BitVec (n + 2) → BitVec 8) (a : BitVec (n + 2)) (op : Load) :
    op.read m a = op.ofWord (a.setWidth 2) (word m (a.extractLsb' 2 n)) := by
  have hlow : (word m (a.extractLsb' 2 n)).extractLsb' (8 * (a.setWidth 2).toNat) 8 = m a := by
    rw [word_byte, append_low]
  have hone : (a.setWidth 2).getLsbD 1 = a.getLsbD 1 := by
    simp
  cases op with
  | lb | lbu => rw [Load.read, Load.ofWord, hlow]
  | lh | lhu => rw [Load.read, Load.ofWord, half_word, hone]
  | lw => rfl

/-- The 32 bits at a program counter, which is a multiple of two. -/
def parcel (m : BitVec (n + 2) → BitVec 8) (pc : BitVec (n + 2)) : Word :=
  half m (pc.extractLsb' 1 (n + 1) + 1) ++ half m (pc.extractLsb' 1 (n + 1))

end Memory

/-! ### The instructions -/

/-- The offsets of `jal` and of a branch are `imm ++ 0#1`. -/
inductive Instr where
  | lui (rd : Reg) (imm : BitVec 20)
  | auipc (rd : Reg) (imm : BitVec 20)
  | jal (rd : Reg) (imm : BitVec 20)
  | jalr (rd rs1 : Reg) (imm : BitVec 12)
  | branch (op : Branch) (rs1 rs2 : Reg) (imm : BitVec 12)
  | load (op : Load) (rd rs1 : Reg) (imm : BitVec 12)
  | store (op : Store) (rs1 rs2 : Reg) (imm : BitVec 12)
  | opImm (op : ImmOp) (rd rs1 : Reg) (imm : BitVec 12)
  | shift (op : ShiftOp) (rd rs1 : Reg) (shamt : BitVec 5)
  | opReg (op : Op) (rd rs1 rs2 : Reg)
  | muldiv (op : MulDiv) (rd rs1 rs2 : Reg)
  | csr (op : CsrOp) (rd rs1 : Reg) (num : BitVec 12)
  | csri (op : CsrOp) (rd : Reg) (uimm : BitVec 5) (num : BitVec 12)
  | ecall
  | ebreak
  | mret
  | sret
deriving DecidableEq, Repr

/-! ### The 32-bit format -/

def Branch.funct3 : Branch → BitVec 3
  | .beq => 0#3
  | .bne => 1#3
  | .blt => 4#3
  | .bge => 5#3
  | .bltu => 6#3
  | .bgeu => 7#3

def ImmOp.funct3 : ImmOp → BitVec 3
  | .addi => 0#3
  | .slti => 2#3
  | .sltiu => 3#3
  | .xori => 4#3
  | .ori => 6#3
  | .andi => 7#3

def ShiftOp.funct3 : ShiftOp → BitVec 3
  | .sll => 1#3
  | .srl => 5#3
  | .sra => 5#3

def ShiftOp.funct7 : ShiftOp → BitVec 7
  | .sll => 0#7
  | .srl => 0#7
  | .sra => 0b0100000#7

def Op.funct3 : Op → BitVec 3
  | .add => 0#3
  | .sub => 0#3
  | .slt => 2#3
  | .sltu => 3#3
  | .xor => 4#3
  | .or => 6#3
  | .and => 7#3
  | .shift op => op.funct3

def Op.funct7 : Op → BitVec 7
  | .sub => 0b0100000#7
  | .shift op => op.funct7
  | _ => 0#7

def MulDiv.funct3 : MulDiv → BitVec 3
  | .mul => 0#3
  | .mulh => 1#3
  | .mulhsu => 2#3
  | .mulhu => 3#3
  | .div => 4#3
  | .divu => 5#3
  | .rem => 6#3
  | .remu => 7#3

def Load.funct3 : Load → BitVec 3
  | .lb => 0#3
  | .lh => 1#3
  | .lw => 2#3
  | .lbu => 4#3
  | .lhu => 5#3

def Store.funct3 : Store → BitVec 3
  | .sb => 0#3
  | .sh => 1#3
  | .sw => 2#3

def CsrOp.funct3 : CsrOp → BitVec 3
  | .rw => 1#3
  | .rs => 2#3
  | .rc => 3#3

/-- The fields of an instruction above its two lowest bits, which are ones. -/
def slots (funct7 : BitVec 7) (rs2 rs1 : Reg) (funct3 : BitVec 3) (rd : Reg) (opcode : BitVec 5) :
    BitVec 30 :=
  funct7 ++ rs2 ++ rs1 ++ funct3 ++ rd ++ opcode

/-- The format I. -/
def iSlots (imm : BitVec 12) (rs1 : Reg) (funct3 : BitVec 3) (rd : Reg) (opcode : BitVec 5) :
    BitVec 30 :=
  slots (imm.extractLsb' 5 7) (imm.extractLsb' 0 5) rs1 funct3 rd opcode

/-- The format U. -/
def uSlots (imm : BitVec 20) (rd : Reg) (opcode : BitVec 5) : BitVec 30 :=
  slots (imm.extractLsb' 13 7) (imm.extractLsb' 8 5) (imm.extractLsb' 3 5) (imm.extractLsb' 0 3) rd
    opcode

/-- The fields of an instruction. -/
def Instr.slots : Instr → BitVec 30
  | .lui rd imm => uSlots imm rd 0b01101#5
  | .auipc rd imm => uSlots imm rd 0b00101#5
  | .jal rd imm => uSlots (imm.extractLsb' 19 1 ++ imm.extractLsb' 0 10 ++ imm.extractLsb' 10 1 ++
      imm.extractLsb' 11 8) rd 0b11011#5
  | .jalr rd rs1 imm => iSlots imm rs1 0#3 rd 0b11001#5
  | .branch op rs1 rs2 imm =>
    Riscv.slots (imm.extractLsb' 11 1 ++ imm.extractLsb' 4 6) rs2 rs1 op.funct3
      (imm.extractLsb' 0 4 ++ imm.extractLsb' 10 1) 0b11000#5
  | .load op rd rs1 imm => iSlots imm rs1 op.funct3 rd 0b00000#5
  | .store op rs1 rs2 imm =>
    Riscv.slots (imm.extractLsb' 5 7) rs2 rs1 op.funct3 (imm.extractLsb' 0 5) 0b01000#5
  | .opImm op rd rs1 imm => iSlots imm rs1 op.funct3 rd 0b00100#5
  | .shift op rd rs1 shamt => Riscv.slots op.funct7 shamt rs1 op.funct3 rd 0b00100#5
  | .opReg op rd rs1 rs2 => Riscv.slots op.funct7 rs2 rs1 op.funct3 rd 0b01100#5
  | .muldiv op rd rs1 rs2 => Riscv.slots 1#7 rs2 rs1 op.funct3 rd 0b01100#5
  | .csr op rd rs1 num => iSlots num rs1 op.funct3 rd 0b11100#5
  | .csri op rd uimm num => iSlots num uimm (op.funct3 ||| 4#3) rd 0b11100#5
  | .ecall => iSlots 0x000#12 0#5 0#3 0#5 0b11100#5
  | .ebreak => iSlots 0x001#12 0#5 0#3 0#5 0b11100#5
  | .mret => iSlots 0x302#12 0#5 0#3 0#5 0b11100#5
  | .sret => iSlots 0x102#12 0#5 0#3 0#5 0b11100#5

/-- The bits of an instruction that say what kind it is. -/
def Instr.opcode : Instr → BitVec 5
  | .lui .. => 0b01101#5
  | .auipc .. => 0b00101#5
  | .jal .. => 0b11011#5
  | .jalr .. => 0b11001#5
  | .branch .. => 0b11000#5
  | .load .. => 0b00000#5
  | .store .. => 0b01000#5
  | .opImm .. | .shift .. => 0b00100#5
  | .opReg .. | .muldiv .. => 0b01100#5
  | .csr .. | .csri .. | .ecall | .ebreak | .mret | .sret => 0b11100#5

/-- The 32-bit format. -/
def Instr.encode (i : Instr) : Word := i.slots ++ 0b11#2

/-! ### The 16-bit format -/

/-- The compressed instructions; `BitVec 3` is one of the registers 8 to 15. -/
inductive Compressed where
  | addi4spn (rd : BitVec 3) (imm : BitVec 8)
  | lw (rd rs1 : BitVec 3) (imm : BitVec 5)
  | sw (rs1 rs2 : BitVec 3) (imm : BitVec 5)
  | addi (rd : Reg) (imm : BitVec 6)
  | jal (imm : BitVec 11)
  | li (rd : Reg) (imm : BitVec 6)
  | addi16sp (imm : BitVec 6)
  | lui (rd : Reg) (imm : BitVec 6)
  | srli (rd : BitVec 3) (shamt : BitVec 5)
  | srai (rd : BitVec 3) (shamt : BitVec 5)
  | andi (rd : BitVec 3) (imm : BitVec 6)
  | sub (rd rs2 : BitVec 3)
  | xor (rd rs2 : BitVec 3)
  | or (rd rs2 : BitVec 3)
  | and (rd rs2 : BitVec 3)
  | j (imm : BitVec 11)
  | beqz (rs1 : BitVec 3) (imm : BitVec 8)
  | bnez (rs1 : BitVec 3) (imm : BitVec 8)
  | slli (rd : Reg) (shamt : BitVec 5)
  | lwsp (rd : Reg) (imm : BitVec 6)
  | jr (rs1 : Reg)
  | mv (rd rs2 : Reg)
  | ebreak
  | jalr (rs1 : Reg)
  | add (rd rs2 : Reg)
  | swsp (rs2 : Reg) (imm : BitVec 6)
deriving DecidableEq, Repr

/-- The operands that do not stand for another instruction. -/
def Compressed.Valid : Compressed → Prop
  | .addi4spn _ imm => imm ≠ 0#8
  | .lui rd _ => rd ≠ 2#5
  | .mv _ rs2 => rs2 ≠ 0#5
  | .jalr rs1 => rs1 ≠ 0#5
  | .add _ rs2 => rs2 ≠ 0#5
  | _ => True

/-- Bits `hi` down to `lo` of an immediate. -/
def bits {n : ℕ} (imm : BitVec n) (hi lo : ℕ) : BitVec (hi - lo + 1) :=
  imm.extractLsb' lo (hi - lo + 1)

/-- The fields of a compressed instruction. -/
structure CSlots where
  funct3 : BitVec 3
  b : BitVec 1
  high : BitVec 5
  low : BitVec 5
  op : BitVec 2

/-- The format of `c.jal` and `c.j`. -/
def cjSlots (funct3 : BitVec 3) (imm : BitVec 11) : CSlots :=
  ⟨funct3, bits imm 10 10, bits imm 3 3 ++ bits imm 8 7 ++ bits imm 9 9 ++ bits imm 5 5,
    bits imm 6 6 ++ bits imm 2 0 ++ bits imm 4 4, 0b01#2⟩

/-- The format of `c.beqz` and `c.bnez`. -/
def cbSlots (funct3 : BitVec 3) (rs1 : BitVec 3) (imm : BitVec 8) : CSlots :=
  ⟨funct3, bits imm 7 7, bits imm 3 2 ++ rs1, bits imm 6 5 ++ bits imm 1 0 ++ bits imm 4 4, 0b01#2⟩

/-- The format of `c.lw` and `c.sw`. -/
def clSlots (funct3 : BitVec 3) (rs1 r : BitVec 3) (imm : BitVec 5) : CSlots :=
  ⟨funct3, bits imm 3 3, bits imm 2 1 ++ rs1, bits imm 0 0 ++ bits imm 4 4 ++ r, 0b00#2⟩

/-- The fields of each instruction. -/
def Compressed.slots : Compressed → CSlots
  | .addi4spn rd imm => ⟨0b000#3, bits imm 3 3, bits imm 2 2 ++ bits imm 7 4,
      bits imm 0 0 ++ bits imm 1 1 ++ rd, 0b00#2⟩
  | .lw rd rs1 imm => clSlots 0b010#3 rs1 rd imm
  | .sw rs1 rs2 imm => clSlots 0b110#3 rs1 rs2 imm
  | .addi rd imm => ⟨0b000#3, bits imm 5 5, rd, bits imm 4 0, 0b01#2⟩
  | .jal imm => cjSlots 0b001#3 imm
  | .li rd imm => ⟨0b010#3, bits imm 5 5, rd, bits imm 4 0, 0b01#2⟩
  | .addi16sp imm => ⟨0b011#3, bits imm 5 5, 2#5,
      bits imm 0 0 ++ bits imm 2 2 ++ bits imm 4 3 ++ bits imm 1 1, 0b01#2⟩
  | .lui rd imm => ⟨0b011#3, bits imm 5 5, rd, bits imm 4 0, 0b01#2⟩
  | .srli rd shamt => ⟨0b100#3, 0#1, 0b00#2 ++ rd, shamt, 0b01#2⟩
  | .srai rd shamt => ⟨0b100#3, 0#1, 0b01#2 ++ rd, shamt, 0b01#2⟩
  | .andi rd imm => ⟨0b100#3, bits imm 5 5, 0b10#2 ++ rd, bits imm 4 0, 0b01#2⟩
  | .sub rd rs2 => ⟨0b100#3, 0#1, 0b11#2 ++ rd, 0b00#2 ++ rs2, 0b01#2⟩
  | .xor rd rs2 => ⟨0b100#3, 0#1, 0b11#2 ++ rd, 0b01#2 ++ rs2, 0b01#2⟩
  | .or rd rs2 => ⟨0b100#3, 0#1, 0b11#2 ++ rd, 0b10#2 ++ rs2, 0b01#2⟩
  | .and rd rs2 => ⟨0b100#3, 0#1, 0b11#2 ++ rd, 0b11#2 ++ rs2, 0b01#2⟩
  | .j imm => cjSlots 0b101#3 imm
  | .beqz rs1 imm => cbSlots 0b110#3 rs1 imm
  | .bnez rs1 imm => cbSlots 0b111#3 rs1 imm
  | .slli rd shamt => ⟨0b000#3, 0#1, rd, shamt, 0b10#2⟩
  | .lwsp rd imm => ⟨0b010#3, bits imm 3 3, rd, bits imm 2 0 ++ bits imm 5 4, 0b10#2⟩
  | .jr rs1 => ⟨0b100#3, 0#1, rs1, 0#5, 0b10#2⟩
  | .mv rd rs2 => ⟨0b100#3, 0#1, rd, rs2, 0b10#2⟩
  | .ebreak => ⟨0b100#3, 1#1, 0#5, 0#5, 0b10#2⟩
  | .jalr rs1 => ⟨0b100#3, 1#1, rs1, 0#5, 0b10#2⟩
  | .add rd rs2 => ⟨0b100#3, 1#1, rd, rs2, 0b10#2⟩
  | .swsp rs2 imm => ⟨0b110#3, bits imm 3 3, bits imm 2 0 ++ bits imm 5 4, rs2, 0b10#2⟩

/-- The 16-bit format. -/
def Compressed.encode (c : Compressed) : BitVec 16 :=
  c.slots.funct3 ++ c.slots.b ++ c.slots.high ++ c.slots.low ++ c.slots.op

/-- The instruction that a compressed one stands for. -/
def Compressed.expand : Compressed → Instr
  | .addi4spn rd imm => .opImm .addi (0b01#2 ++ rd) 2#5 (0#2 ++ imm ++ 0#2)
  | .lw rd rs1 imm => .load .lw (0b01#2 ++ rd) (0b01#2 ++ rs1) (0#5 ++ imm ++ 0#2)
  | .sw rs1 rs2 imm => .store .sw (0b01#2 ++ rs1) (0b01#2 ++ rs2) (0#5 ++ imm ++ 0#2)
  | .addi rd imm => .opImm .addi rd rd (imm.signExtend 12)
  | .jal imm => .jal 1#5 (imm.signExtend 20)
  | .li rd imm => .opImm .addi rd 0#5 (imm.signExtend 12)
  | .addi16sp imm => .opImm .addi 2#5 2#5 ((imm ++ 0#4).signExtend 12)
  | .lui rd imm => .lui rd (imm.signExtend 20)
  | .srli rd shamt => .shift .srl (0b01#2 ++ rd) (0b01#2 ++ rd) shamt
  | .srai rd shamt => .shift .sra (0b01#2 ++ rd) (0b01#2 ++ rd) shamt
  | .andi rd imm => .opImm .andi (0b01#2 ++ rd) (0b01#2 ++ rd) (imm.signExtend 12)
  | .sub rd rs2 => .opReg .sub (0b01#2 ++ rd) (0b01#2 ++ rd) (0b01#2 ++ rs2)
  | .xor rd rs2 => .opReg .xor (0b01#2 ++ rd) (0b01#2 ++ rd) (0b01#2 ++ rs2)
  | .or rd rs2 => .opReg .or (0b01#2 ++ rd) (0b01#2 ++ rd) (0b01#2 ++ rs2)
  | .and rd rs2 => .opReg .and (0b01#2 ++ rd) (0b01#2 ++ rd) (0b01#2 ++ rs2)
  | .j imm => .jal 0#5 (imm.signExtend 20)
  | .beqz rs1 imm => .branch .beq (0b01#2 ++ rs1) 0#5 (imm.signExtend 12)
  | .bnez rs1 imm => .branch .bne (0b01#2 ++ rs1) 0#5 (imm.signExtend 12)
  | .slli rd shamt => .shift .sll rd rd shamt
  | .lwsp rd imm => .load .lw rd 2#5 (0#4 ++ imm ++ 0#2)
  | .jr rs1 => .jalr 0#5 rs1 0#12
  | .mv rd rs2 => .opReg .add rd 0#5 rs2
  | .ebreak => .ebreak
  | .jalr rs1 => .jalr 1#5 rs1 0#12
  | .add rd rs2 => .opReg .add rd rd rs2
  | .swsp rs2 imm => .store .sw 2#5 rs2 (0#4 ++ imm ++ 0#2)

/-- What the 32 bits at a program counter stand for, and its length in bytes. -/
inductive Decodes : Word → Instr → ℕ → Prop
  | long (i : Instr) : Decodes i.encode i 4
  | short (hi : BitVec 16) {c : Compressed} (hc : c.Valid) : Decodes (hi ++ c.encode) c.expand 2

end Filestick.Riscv
