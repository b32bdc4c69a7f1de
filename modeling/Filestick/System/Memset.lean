import Filestick.Lib.Rv32

/-!
# `memset` (`memset.S`)

The label is in front of the instruction that keeps `s` for the end, so each turn of the loop keeps
another pointer.  The code is not in the memory of the model.
-/

namespace Filestick.Memset

open Rv32

/-- The instructions; the label `memset` is the place 0. -/
def memset : List Instr :=
  [mv t1 a0,
    .sb a1 0#12 a0,
    .addi a0 a0 1#12,
    .addi a2 a2 (-1#12),
    bnez a2 0,
    mv a0 t1,
    .ret]

/-- A call, with the arguments in the registers. -/
def call (regs : Reg → BitVec 32) (mem : BitVec 32 → BitVec 8) : State := ⟨regs, mem, 0⟩

end Filestick.Memset
