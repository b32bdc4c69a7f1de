import Filestick.Lib.Loop
import Mathlib.Logic.Function.Basic

/-!
# Routines of RV32I

A routine is a list of instructions, and its labels are places in it.  It is not in the memory that
it works on: `State` has the registers, the memory, and the place of the next instruction.

* `step`: one instruction; `ret` ends the routine.
* `get_set` and the lemmas beside it: what a state is after each of the changes.
* `run_next`, `run_ret`: a run by the first of its instructions.
-/

namespace Filestick.Rv32

open Loop

/-- A register by its number. -/
abbrev Reg := Fin 32

/-- `zero`, which holds 0 whatever is written to it. -/
def zero : Reg := 0
/-- `t1`. -/
def t1 : Reg := 6
/-- `a0`. -/
def a0 : Reg := 10
/-- `a1`. -/
def a1 : Reg := 11
/-- `a2`. -/
def a2 : Reg := 12

/-- The instructions. -/
inductive Instr where
  | addi (rd rs : Reg) (imm : BitVec 12)
  | sb (rs : Reg) (imm : BitVec 12) (base : Reg)
  | bne (rs rs' : Reg) (label : ℕ)
  | ret
deriving DecidableEq, Repr

/-- `mv`. -/
def mv (rd rs : Reg) : Instr := .addi rd rs 0#12

/-- `bnez`. -/
def bnez (rs : Reg) (label : ℕ) : Instr := .bne rs zero label

/-- The registers, the memory, and the place of the next instruction. -/
structure State where
  regs : Reg → BitVec 32
  mem : BitVec 32 → BitVec 8
  pc : ℕ

/-- What a register holds. -/
def State.get (s : State) (r : Reg) : BitVec 32 := if r = zero then 0#32 else s.regs r

/-- A register has been set. -/
def State.set (s : State) (r : Reg) (x : BitVec 32) : State :=
  { s with regs := Function.update s.regs r x, pc := s.pc + 1 }

/-- A byte has been stored. -/
def State.store (s : State) (a : BitVec 32) (x : BitVec 8) : State :=
  { s with mem := Function.update s.mem a x, pc := s.pc + 1 }

/-- A branch has been made. -/
def State.jump (s : State) (pc : ℕ) : State := { s with pc }

/-- What an instruction does. -/
def exec (s : State) : Instr → State ⊕ State
  | .addi rd rs imm => .inl (s.set rd (s.get rs + imm.signExtend 32))
  | .sb rs imm base => .inl (s.store (s.get base + imm.signExtend 32) ((s.get rs).setWidth 8))
  | .bne rs rs' label => .inl (s.jump (if s.get rs ≠ s.get rs' then label else s.pc + 1))
  | .ret => .inr s

/-- One instruction; behind the last one there is none. -/
def step (code : List Instr) (s : State) : Option (State ⊕ State) := (code[s.pc]?).map (exec s)

/-- The state in which a routine returns, if it takes at most `n` instructions. -/
def run (code : List Instr) (n : ℕ) (s : State) : Option State := loop (step code) n s

/-! ### States -/

section States

variable (s : State) (r r' : Reg) (x : BitVec 32) (a : BitVec 32) (b : BitVec 8) (pc : ℕ)

@[simp] theorem get_zero : s.get zero = 0#32 := if_pos rfl

theorem get_set :
    (s.set r x).get r' = if r' = zero then 0#32 else if r' = r then x else s.get r' := by
  unfold State.get State.set
  split_ifs with hzero heq
  · rfl
  · rw [heq]
    exact Function.update_self r x s.regs
  · exact Function.update_of_ne heq x s.regs

@[simp] theorem set_mem : (s.set r x).mem = s.mem := rfl

@[simp] theorem set_pc : (s.set r x).pc = s.pc + 1 := rfl

@[simp] theorem get_store : (s.store a b).get r = s.get r := rfl

@[simp] theorem store_mem : (s.store a b).mem = Function.update s.mem a b := rfl

@[simp] theorem store_pc : (s.store a b).pc = s.pc + 1 := rfl

@[simp] theorem get_jump : (s.jump pc).get r = s.get r := rfl

@[simp] theorem jump_mem : (s.jump pc).mem = s.mem := rfl

@[simp] theorem jump_pc : (s.jump pc).pc = pc := rfl

end States

/-! ### Runs -/

variable {code : List Instr} {s s' : State} {i : Instr}

/-- The first instruction of a run that goes on. -/
theorem run_next (hcode : code[s.pc]? = some i) (hexec : exec s i = .inl s') (n : ℕ) :
    run code (n + 1) s = run code n s' := by
  apply loop_turn
  rw [step, hcode, Option.map_some, hexec]

/-- The last instruction of a run. -/
theorem run_ret (hcode : code[s.pc]? = some .ret) (n : ℕ) : run code (n + 1) s = some s := by
  apply loop_end
  rw [step, hcode]
  rfl

end Filestick.Rv32
