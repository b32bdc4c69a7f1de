import Filestick.Lib.Ring
import Filestick.System.Memset
import Filestick.System.Strings

/-!
# What `memset` does

* `run_pass`, `run_loop`: one turn of the loop, and all of them.
* `run_memset`: what a call returns and leaves.
* `memset_refines`: for a count other than 0, the memory is the one that the loader relies on.
* `memset_exact_iff`: the contract is kept for one byte only.
-/

namespace Filestick.Memset

open Rv32
open Filestick.Ring

/-! ### The loop -/

theorem regs_ne : t1 ≠ zero ∧ a0 ≠ zero ∧ a1 ≠ zero ∧ a2 ≠ zero ∧ a0 ≠ t1 ∧ a1 ≠ t1 ∧ a2 ≠ t1 ∧
    t1 ≠ a0 ∧ a1 ≠ a0 ∧ a2 ≠ a0 ∧ t1 ≠ a2 ∧ a0 ≠ a2 ∧ a1 ≠ a2 := by
  decide

theorem add_zero_imm (x : BitVec 32) : x + (0#12).signExtend 32 = x := BitVec.add_zero x

theorem add_neg_one_imm (x : BitVec 32) : x + (-1#12).signExtend 32 = x - 1#32 := by
  have himm : (-1#12).signExtend 32 = -1#32 := by decide
  rw [himm, BitVec.sub_eq_add_neg]

/-- One turn of the loop. -/
theorem run_pass {s : State} (hpc : s.pc = 0) (n : ℕ) :
    ∃ s', run memset (n + 5) s = run memset n s' ∧ s'.get t1 = s.get a0 ∧
      s'.get a0 = s.get a0 + 1#32 ∧ s'.get a1 = s.get a1 ∧ s'.get a2 = s.get a2 - 1#32 ∧
      s'.mem = Function.update s.mem (s.get a0) ((s.get a1).setWidth 8) ∧
      s'.pc = if s.get a2 - 1#32 ≠ 0#32 then 0 else 5 := by
  refine ⟨_, (run_next (i := mv t1 a0) (by rw [hpc]; rfl) rfl _).trans <|
    (run_next (i := .sb a1 0#12 a0) (by rw [set_pc, hpc]; rfl) rfl _).trans <|
    (run_next (i := .addi a0 a0 1#12) (by rw [store_pc, set_pc, hpc]; rfl) rfl _).trans <|
    (run_next (i := .addi a2 a2 (-1#12)) (by rw [set_pc, store_pc, set_pc, hpc]; rfl) rfl
      _).trans <|
    run_next (i := bnez a2 0) (by rw [set_pc, set_pc, store_pc, set_pc, hpc]; rfl) rfl _, ?_⟩
  simp only [get_set, get_store, get_jump, set_mem, store_mem, jump_mem, jump_pc, set_pc, store_pc,
    get_zero, hpc, regs_ne, if_false, if_true, add_zero_imm, add_neg_one_imm]
  exact ⟨trivial, rfl, trivial, trivial, trivial, trivial⟩

/-- The end of the routine. -/
theorem run_end {s : State} (hpc : s.pc = 5) (n : ℕ) :
    ∃ r, run memset (n + 2) s = some r ∧ r.get a0 = s.get t1 ∧ r.mem = s.mem := by
  refine ⟨_, (run_next (i := mv a0 t1) (by rw [hpc]; rfl) rfl _).trans <|
    run_ret (by rw [set_pc, hpc]; rfl) _, ?_⟩
  simp only [get_set, set_mem, regs_ne, if_false, if_true, add_zero_imm]
  exact ⟨trivial, trivial⟩

/-- **All turns of the loop**: with `k + 1` to go, `k + 1` bytes are set, and the pointer to the
last one is returned. -/
theorem run_loop {k : ℕ} (hk : k < 2 ^ 32) {s : State} (hpc : s.pc = 0)
    (hcount : s.get a2 = BitVec.ofNat 32 (k + 1)) :
    ∃ r, run memset (5 * k + 7) s = some r ∧ r.get a0 = s.get a0 + BitVec.ofNat 32 k ∧
      r.mem = writeAll s.mem (s.get a0) (List.replicate (k + 1) ((s.get a1).setWidth 8)) := by
  induction k generalizing s with
  | zero =>
    obtain ⟨s', hrun, ht1, -, -, -, hmem, hpc'⟩ := run_pass hpc 2
    rw [hcount, if_neg (by decide)] at hpc'
    obtain ⟨r, hend, ha0, hmem'⟩ := run_end hpc' 0
    refine ⟨r, hrun.trans hend, ?_, ?_⟩
    · rw [ha0, ht1]
      exact (BitVec.add_zero _).symm
    · rw [hmem', hmem]
      rfl
  | succ k ih =>
    obtain ⟨s', hrun, -, ha0, ha1, ha2, hmem, hpc'⟩ := run_pass hpc (5 * k + 7)
    have hcount' : s.get a2 - 1#32 = BitVec.ofNat 32 (k + 1) := by
      rw [hcount, BitVec.ofNat_add (k + 1) 1]
      exact BitVec.add_sub_cancel _ _
    have hne : BitVec.ofNat 32 (k + 1) ≠ 0#32 := by
      intro h0
      have hnat := congrArg BitVec.toNat h0
      rw [BitVec.toNat_ofNat, Nat.mod_eq_of_lt hk] at hnat
      exact nomatch hnat
    rw [hcount', if_pos hne] at hpc'
    obtain ⟨r, hend, hret, hmem'⟩ := ih (Nat.lt_of_succ_lt hk) hpc' (ha2.trans hcount')
    refine ⟨r, hrun.trans hend, ?_, ?_⟩
    · rw [hret, ha0, BitVec.add_assoc, ← BitVec.ofNat_add, Nat.add_comm 1]
    · rw [hmem', ha0, ha1, hmem]
      rfl

/-! ### A call -/

/-- How many bytes are set: with a count of 0, all there are. -/
def bytesSet (count : BitVec 32) : ℕ := if count = 0#32 then 2 ^ 32 else count.toNat

theorem exists_bytesSet (count : BitVec 32) :
    ∃ k < 2 ^ 32, bytesSet count = k + 1 ∧ count = BitVec.ofNat 32 (k + 1) := by
  unfold bytesSet
  by_cases h0 : count = 0#32
  · refine ⟨2 ^ 32 - 1, by decide, if_pos h0, ?_⟩
    rw [h0]
    decide
  · have hpos : count.toNat ≠ 0 := fun hzero => h0 (BitVec.eq_of_toNat_eq hzero)
    have hlt := count.isLt
    refine ⟨count.toNat - 1, by omega, ?_, ?_⟩
    · rw [if_neg h0]
      omega
    · rw [Nat.sub_add_cancel (Nat.pos_of_ne_zero hpos), BitVec.ofNat_toNat, BitVec.setWidth_eq]

section Call

variable (regs : Reg → BitVec 32) (mem : BitVec 32 → BitVec 8)

/-- **What a call returns and leaves.** -/
theorem run_memset :
    ∃ n r, run memset n (call regs mem) = some r ∧ r.get a0 = regs a0 + (regs a2 - 1#32) ∧
      r.mem = writeAll mem (regs a0)
        (List.replicate (bytesSet (regs a2)) ((regs a1).setWidth 8)) := by
  obtain ⟨k, hk, hset, hcount⟩ := exists_bytesSet (regs a2)
  obtain ⟨r, hrun, hret, hmem⟩ := run_loop hk (s := call regs mem) rfl hcount
  refine ⟨_, r, hrun, ?_, ?_⟩
  · rw [hret, hcount, BitVec.ofNat_add, BitVec.add_sub_cancel]
    rfl
  · rw [hmem, hset]
    rfl

/-- For a count other than 0, a call leaves the memory that `elf_load` and `setup_stack_args` go on
with. -/
theorem memset_refines {mem' : BitVec 32 → BitVec 8}
    (h : Elf.memset mem (regs a0) ((regs a1).setWidth 8) (regs a2) = some mem') :
    ∃ n r, run memset n (call regs mem) = some r ∧ r.mem = mem' := by
  obtain ⟨n, r, hrun, -, hmem⟩ := run_memset regs mem
  refine ⟨n, r, hrun, ?_⟩
  unfold Elf.memset at h
  split_ifs at h with h0
  rw [hmem, bytesSet, if_neg h0]
  exact Option.some.inj h

/-- **The contract**: a call ends, sets the bytes from `s` on as many as are asked for, leaves the
others as they are, and returns `s`. -/
def Exact : Prop :=
  ∃ n r, run memset n (call regs mem) = some r ∧
    (∀ a, r.mem a = if (a - regs a0).toNat < (regs a2).toNat then (regs a1).setWidth 8 else mem a) ∧
    r.get a0 = regs a0

/-- **The contract is kept for one byte**, and for no other count: the pointer to the last byte is
returned. -/
theorem memset_exact_iff : Exact regs mem ↔ regs a2 = 1#32 := by
  obtain ⟨n, r, hrun, hret, hmem⟩ := run_memset regs mem
  constructor
  · rintro ⟨n', r', hrun', -, hs⟩
    obtain rfl : r = r' := Loop.loop_unique hrun hrun'
    rw [hret] at hs
    bv_omega
  · intro hone
    refine ⟨n, r, hrun, ?_, ?_⟩
    · intro a
      have hlen : (List.replicate (bytesSet (regs a2)) ((regs a1).setWidth 8)).length = 1 := by
        rw [List.length_replicate, hone]
        rfl
      rw [hmem, writeAll_apply _ _ _ (by omega), hone]
      by_cases ha : (a - regs a0).toNat < 1
      · have hzero : (a - regs a0).toNat = 0 := by omega
        rw [hzero]
        rfl
      · rw [List.getElem?_eq_none (by rw [← hone]; omega)]
        exact (if_neg ha).symm
    · rw [hret, hone]
      exact BitVec.add_zero _

end Call

/-- Two bytes are set, and the second one is pointed to. -/
theorem two_bytes_not_exact :
    ¬Exact (fun r => if r = a0 then 0x1000#32 else if r = a2 then 2#32 else 0#32) fun _ => 1#8 := by
  rintro ⟨n, r, hrun, -, hs⟩
  obtain ⟨n', r', hrun', hret, -⟩ :=
    run_memset (fun r => if r = a0 then 0x1000#32 else if r = a2 then 2#32 else 0#32) fun _ => 1#8
  obtain rfl : r = r' := Loop.loop_unique hrun hrun'
  rw [hret] at hs
  revert hs
  decide

end Filestick.Memset
