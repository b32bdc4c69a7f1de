import Filestick.Rtl.FemtoRV32
import Mathlib.Logic.Basic

/-!
# Traps, interrupts and memory protection of the processor

* `trapsKept_iff`: in a run, every trapping instruction is delivered to `stvec` (now, or later
  through `mepc`), and `s_mode` is only set with a jump to `stvec`, exactly when no interrupt is
  accepted on the clock of a trap.
* `storeProtected_never`: a store of a user program below 64k is never kept from the memory.
* `next_execute`: the clocks between two instructions.
-/

namespace Filestick.FemtoRV32

variable {s : FemtoRV32} {i : CpuInput}

/-! ### The program counter in `EXECUTE` -/

theorem step_pc (hreset : i.reset = true) (hs : s.state = .execute) :
    (s.step i).pc = if s.interrupt i then s.mtvec
      else if s.traps || s.privViolation then s.stvec else s.pcNew := by
  have hpc : (s.step i).pc = (s.clockExecute i).pc := by
    simp [step, clockControl, hreset, hs]
  rw [hpc, clockExecute, traps]
  split_ifs <;> rfl

theorem step_mepc (hreset : i.reset = true) (hs : s.state = .execute) :
    (s.step i).mepc = if s.interrupt i then s.pcNew else s.mepc := by
  have hm : (s.step i).mepc = (s.clockExecute i).mepc := by
    simp [step, clockControl, hreset, hs]
  rw [hm, clockExecute]
  split_ifs <;> rfl

/-- The cause of a trap. -/
def trapCause (s : FemtoRV32) : BitVec 4 :=
  if s.ecall then 0x8#4 else if s.ebreak then 0x3#4 else if s.privViolation then 0x5#4 else 0x2#4

theorem step_trap (hreset : i.reset = true) (hs : s.state = .execute) (hi : s.interrupt i = false)
    (ht : (s.traps || s.privViolation) = true) :
    (s.step i).sepc = s.pcNew ∧ (s.step i).scause = s.trapCause := by
  have hstep : (s.step i).sepc = (s.clockExecute i).sepc ∧
      (s.step i).scause = (s.clockExecute i).scause := by
    simp [step, clockControl, hreset, hs]
  rw [hstep.1, hstep.2, clockExecute, hi, if_neg (by decide), if_pos (by simpa [traps] using ht)]
  exact ⟨rfl, rfl⟩

/-- An instruction that traps is followed by the next one in memory. -/
theorem pcNew_of_traps (h : s.traps = true) : s.pcNew = s.pcInc := by
  have hnone : s.isJALR = false ∧ s.isJAL = false ∧ s.isBranch = false ∧
      s.interruptReturn = false ∧ s.supervisorReturn = false := by
    rw [traps, Bool.or_eq_true, Bool.or_eq_true] at h
    rcases h with (h | h) | h
    · simp only [ecall, isSYSTEM, Bool.and_eq_true, beq_iff_eq] at h
      simp [isJALR, isJAL, isBranch, interruptReturn, supervisorReturn, h]
    · simp only [ebreak, isSYSTEM, Bool.and_eq_true, beq_iff_eq] at h
      simp [isJALR, isJAL, isBranch, interruptReturn, supervisorReturn, h]
    · simp only [isILLEGAL, Bool.not_eq_true', Bool.or_eq_false_iff] at h
      simp [interruptReturn, supervisorReturn, h]
  obtain ⟨h1, h2, h3, h4, h5⟩ := hnone
  rw [pcNew, h1, h2, h3, h4, h5]
  rfl

theorem pcInc_ne (s : FemtoRV32) : s.pcInc ≠ s.pc := by
  unfold pcInc
  split <;> bv_omega

/-! ### No trap is lost -/

/-- The trap is taken on this clock. -/
def Delivered (s : FemtoRV32) (i : CpuInput) : Prop :=
  s.interrupt i = false ∧ (s.step i).pc = s.stvec ∧ (s.step i).sepc = s.pcNew ∧
    (s.step i).scause = s.trapCause

/-- An interrupt is taken first, and returns to the instruction. -/
def Deferred (s : FemtoRV32) (i : CpuInput) : Prop :=
  s.interrupt i = true ∧ (s.step i).mepc = s.pc

/-- Each execution of `ecall`, `ebreak` or an illegal instruction is followed by exactly one
transfer to `stvec`, and apart from a reset `s_mode` is only set with a transfer to `stvec`. -/
structure TrapKept (s : FemtoRV32) (i : CpuInput) : Prop where
  once : i.reset = true → s.state = .execute → s.traps = true → Xor (s.Delivered i) (s.Deferred i)
  mode : i.reset = true → s.sMode = false → (s.step i).sMode = true → (s.step i).pc = s.stvec

/-- No interrupt is accepted on the clock of a trap.  (The last part is about the trap of an earlier
access: it only matters when `s_mode` would be set by it and the two handlers differ.) -/
def TrapClear (s : FemtoRV32) (i : CpuInput) : Prop :=
  i.reset = true → s.state = .execute → s.interrupt i = true →
    s.traps = false ∧ ¬(s.privViolation = true ∧ s.sMode = false ∧ s.sClear = false ∧
      s.mtvec ≠ s.stvec)

theorem delivered_of_not_interrupt (hreset : i.reset = true) (hs : s.state = .execute)
    (hi : s.interrupt i = false) (ht : s.traps = true) : s.Delivered i := by
  have h := step_trap hreset hs hi (by rw [ht, Bool.true_or])
  refine ⟨hi, ?_, h.1, h.2⟩
  rw [step_pc hreset hs, hi, if_neg (by decide), ht, Bool.true_or, if_pos rfl]

theorem not_deferred_of_traps (hreset : i.reset = true) (hs : s.state = .execute)
    (ht : s.traps = true) : ¬s.Deferred i := by
  rintro ⟨hi, hmepc⟩
  rw [step_mepc hreset hs, hi, if_pos rfl, pcNew_of_traps ht] at hmepc
  exact s.pcInc_ne hmepc

/-- When `s_mode` is set by a clock. -/
theorem step_sMode_iff (hreset : i.reset = true) (hm : s.sMode = false) :
    (s.step i).sMode = true ↔
      s.state = .execute ∧ s.sClear = false ∧ (s.traps || s.privViolation) = true := by
  have hstep : (s.step i).sMode = if s.sClear then false else if s.sSet || !i.reset then true
      else s.sMode := rfl
  rw [hstep, hreset, hm, sSet, traps]
  cases s.sClear <;> simp

theorem trapKept_iff_trapClear (s : FemtoRV32) (i : CpuInput) : s.TrapKept i ↔ s.TrapClear i := by
  constructor
  · intro h hreset hs hi
    have htraps : s.traps = false := by
      by_contra ht
      rw [Bool.not_eq_false] at ht
      rcases h.once hreset hs ht with ⟨⟨hi', -⟩, -⟩ | ⟨hd, -⟩
      · rw [hi] at hi'
        exact absurd hi' (by decide)
      · exact not_deferred_of_traps hreset hs ht hd
    refine ⟨htraps, fun ⟨hp, hm, hc, hne⟩ => hne ?_⟩
    have hset := (step_sMode_iff (i := i) hreset hm).mpr ⟨hs, hc, by rw [hp, Bool.or_true]⟩
    have hpc := h.mode hreset hm hset
    rwa [step_pc hreset hs, hi, if_pos rfl] at hpc
  · intro h
    constructor
    · intro hreset hs ht
      cases hi : s.interrupt i with
      | true => exact absurd ((h hreset hs hi).1.symm.trans ht) (by decide)
      | false =>
        exact Or.inl ⟨delivered_of_not_interrupt hreset hs hi ht,
          not_deferred_of_traps hreset hs ht⟩
    · intro hreset hm hset
      obtain ⟨hs, hc, ht⟩ := (step_sMode_iff hreset hm).mp hset
      rw [step_pc hreset hs]
      cases hi : s.interrupt i with
      | false => rw [if_neg (by decide), if_pos ht]
      | true =>
        obtain ⟨htraps, hpriv⟩ := h hreset hs hi
        rw [htraps, Bool.false_or] at ht
        rw [if_pos rfl]
        by_contra hne
        exact hpriv ⟨ht, hm, hc, hne⟩

/-- **No trap is lost**, in a run from any state and over any instructions and interrupt timing,
exactly when no step of the run accepts an interrupt on the clock of a trap: there the interrupt
comes first, `mepc` is the address after the trapping instruction, and `s_mode` is set as well. -/
theorem trapsKept_iff (s : FemtoRV32) (is : List CpuInput) :
    Machine.StepsMeet step TrapKept s is ↔ Machine.StepsMeet step TrapClear s is :=
  Machine.stepsMeet_congr trapKept_iff_trapClear s is

/-- A clock of a memory without wait states. -/
def clockInput (memRdata : BitVec 32) (interruptRequest : Bool) : CpuInput :=
  ⟨memRdata, false, false, interruptRequest, true⟩

/-- The core after a reset of registers that are all 0. -/
def powerUp : FemtoRV32 :=
  step ⟨fun _ => 0#32, false, 0#32, 0#32, 0#32, 0#63, 0#32, 0#32, 0#32, 0#24, 0#30,
    false, 0#24, 0#24,
    false, false, 0#32, 0#64, 0#24, 0#32, 0#24, 0#4, 0#22, 0#32, false, .fetchInstr, 0#24,
    false, false, false⟩ ⟨0#32, false, false, false, false⟩

/-- The three clocks of an instruction; the interrupt request is seen on the last one. -/
def instrClocks (instr : BitVec 32) (interruptRequest : Bool) : List CpuInput :=
  [clockInput 0#32 false, clockInput instr false, clockInput 0#32 interruptRequest]

/-- `csrwi mstatus, 8` and `ecall`, with an interrupt request on the clock of the `ecall`. -/
def interruptedEcall : List CpuInput :=
  clockInput 0#32 false :: instrClocks 0x30045073#32 false ++ instrClocks 0x00000073#32 true

/-- The trap of the `ecall` is lost. -/
theorem interruptedEcall_not_trapsKept :
    ¬Machine.StepsMeet step TrapKept powerUp interruptedEcall := by
  rw [Machine.stepsMeet_congr trapKept_iff_trapClear]
  unfold TrapClear
  decide +kernel

/-! ### Stores of user programs -/

/-- The core after `t` clocks. -/
def after (s : FemtoRV32) (is : ℕ → CpuInput) : ℕ → FemtoRV32
  | 0 => s
  | t + 1 => (s.after is t).step (is t)

/-- A store is kept from the memory, and leads to a trap with cause 5. -/
def StoreProtected (s : FemtoRV32) (is : ℕ → CpuInput) : Prop :=
  s.memWmask = 0#4 ∧
    ∃ t, (s.after is (t + 1)).pc = (s.after is t).stvec ∧ (s.after is (t + 1)).scause = 0x5#4

theorem storeWmask_ne_zero (s : FemtoRV32) : s.storeWmask ≠ 0#4 := by
  unfold storeWmask
  split_ifs <;> decide

/-- **No store is kept from the memory**: whatever comes before and after it, a store that a user
program executes below 64k drives a write mask that is not 0.  The check only sets `priv_violation`,
which no write signal depends on. -/
theorem storeProtected_never (s : FemtoRV32) (hs : s.state = .execute)
    (huser : s.sMode = false ∧ s.mMode = false) (hstore : s.isStore = true)
    (hlow : s.loadstoreAddr.toNat < 65536) (is : ℕ → CpuInput) :
    s.memAddr = s.loadstoreAddr ∧ s.privRequired = true ∧ s.privMode = false ∧
      ¬s.StoreProtected is := by
  have haddr : s.memAddr = s.loadstoreAddr := by
    rw [memAddr, if_neg (by rw [hs]; decide)]
  refine ⟨haddr, ?_, ?_, ?_⟩
  · rw [privRequired, haddr, hstore, Bool.or_true, Bool.true_and]
    exact decide_eq_true hlow
  · rw [privMode, huser.1, huser.2]
    rfl
  · rintro ⟨hmask, -⟩
    rw [memWmask, hs, hstore, if_pos (by decide)] at hmask
    exact s.storeWmask_ne_zero hmask

/-- The core about to execute `sw x0, 0(x0)` in a program that was started with `csrwi 0x5c1, 0`. -/
def userStore : FemtoRV32 :=
  Machine.run step powerUp (clockInput 0#32 false :: instrClocks 0x5C105073#32 false ++
    (instrClocks 0x00002023#32 false).take 2)

/-- Such a store can be reached. -/
theorem userStore_not_protected :
    userStore.Reachable ∧ ¬userStore.StoreProtected fun _ => clockInput 0#32 false :=
  ⟨⟨_, _, _, rfl, rfl⟩, (storeProtected_never userStore (by decide +kernel) (by decide +kernel)
    (by decide +kernel) (by decide +kernel) _).2.2.2⟩

/-- It writes to the word at address 0, in user mode. -/
theorem userStore_writes :
    userStore.Reachable ∧ userStore.state = .execute ∧ userStore.sMode = false ∧
      userStore.mMode = false ∧ userStore.isStore = true ∧ userStore.loadstoreAddr = 0#24 ∧
      userStore.memWmask = 0b1111#4 :=
  ⟨⟨_, _, _, rfl, rfl⟩, by decide +kernel⟩

/-! ### The time between two accesses -/

/-- A bound on the clocks to decode an instruction: its second half may have to be fetched. -/
def decodeClocks (s : FemtoRV32) : ℕ := if s.fetchSecondHalf then 1 else 3

/-- A bound on the clocks until `EXECUTE`, with no wait states. -/
def clocksLeft (s : FemtoRV32) : ℕ :=
  match s.state with
  | .execute => 0
  | .waitInstr => s.decodeClocks
  | .fetchInstr => s.decodeClocks + 1
  | .waitAluOrMemSkip => s.decodeClocks + 1
  | .waitAluOrMem => s.decodeClocks + 2

theorem decodeClocks_bounds (s : FemtoRV32) : 1 ≤ s.decodeClocks ∧ s.decodeClocks ≤ 3 := by
  unfold decodeClocks
  split <;> omega

theorem clocksLeft_le (s : FemtoRV32) : s.clocksLeft ≤ 5 := by
  have := s.decodeClocks_bounds
  unfold clocksLeft
  split <;> omega

theorem state_of_clocksLeft (h : s.clocksLeft = 0) : s.state = .execute := by
  have := s.decodeClocks_bounds
  unfold clocksLeft at h
  split at h
  · assumption
  all_goals omega

/-- The divider is done. -/
theorem step_aluBusy (h : s.aluBusy = false) (hd : s.state = .execute → s.isDivide = false) :
    (s.step i).aluBusy = false := by
  have hmsk : s.quotientMsk = 0#32 := by simpa [aluBusy] using h
  have hwr : (s.isDivide && s.aluWr) = false := by
    by_cases hs : s.state = .execute
    · rw [hd hs, Bool.false_and]
    · simp [aluWr, hs]
  have hstep : (s.step i).quotientMsk = s.clockDivider.quotientMsk := rfl
  simp [aluBusy, hstep, clockDivider, hwr, hmsk]

/-- Each clock brings `EXECUTE` closer. -/
theorem step_clocksLeft (hreset : i.reset = true) (hr : i.memRbusy = false)
    (hw : i.memWbusy = false) (halu : s.aluBusy = false) (hs : s.state ≠ .execute) :
    (s.step i).clocksLeft + 1 ≤ s.clocksLeft := by
  have hstate : (s.step i).state = (s.clockControl i).state ∧
      (s.step i).fetchSecondHalf = (s.clockControl i).fetchSecondHalf := ⟨rfl, rfl⟩
  unfold clocksLeft decodeClocks
  rw [hstate.1, hstate.2]
  cases hcase : s.state with
  | execute => exact absurd hcase hs
  | waitInstr =>
    simp only [clockControl, clockWaitInstr, hreset, hcase, hr]
    cases s.currentUnalignedLong i <;> cases s.fetchSecondHalf <;> simp
  | fetchInstr => simp [clockControl, hreset, hcase]
  | waitAluOrMemSkip => simp [clockControl, hreset, hcase, halu, hr, hw]
  | waitAluOrMem => simp [clockControl, hreset, hcase, halu, hr, hw]

/-- With no wait states, `EXECUTE` comes in time. -/
theorem execute_within (is : ℕ → CpuInput) (hreset : ∀ t, (is t).reset = true)
    (hr : ∀ t, (is t).memRbusy = false) (hw : ∀ t, (is t).memWbusy = false) :
    ∀ (n t : ℕ), (s.after is t).clocksLeft ≤ n → (s.after is t).aluBusy = false →
      ∃ m ≤ n, (s.after is (t + m)).state = .execute ∧
        ∀ u < m, (s.after is (t + u)).state ≠ .execute := by
  intro n
  induction n with
  | zero =>
    intro t hn _
    exact ⟨0, Nat.le_refl 0, state_of_clocksLeft (Nat.le_zero.mp hn),
      fun u hu => absurd hu (Nat.not_lt_zero u)⟩
  | succ n ih =>
    intro t hn halu
    by_cases hs : (s.after is t).state = .execute
    · exact ⟨0, Nat.zero_le _, hs, fun u hu => absurd hu (Nat.not_lt_zero u)⟩
    · have hleft := step_clocksLeft (hreset t) (hr t) (hw t) halu hs
      have halu' : (s.after is (t + 1)).aluBusy = false := step_aluBusy halu fun h => absurd h hs
      obtain ⟨m, hm, hex, hno⟩ := ih (t + 1) (by rw [after]; omega) halu'
      refine ⟨m + 1, by omega, ?_, fun u hu => ?_⟩
      · rwa [show t + (m + 1) = t + 1 + m by omega]
      · cases u with
        | zero => exact hs
        | succ u => rw [show t + (u + 1) = t + 1 + u by omega]; exact hno u (by omega)

/-- **The time between two accesses**: after an instruction that does not divide, with no wait
states, at most 5 clocks come before the next `EXECUTE`. -/
theorem next_execute (hd : s.isDivide = false) (halu : s.aluBusy = false)
    (is : ℕ → CpuInput) (hreset : ∀ t, (is t).reset = true) (hr : ∀ t, (is t).memRbusy = false)
    (hw : ∀ t, (is t).memWbusy = false) :
    ∃ m ≤ 5, (s.after is (1 + m)).state = .execute ∧
      ∀ u < m, (s.after is (1 + u)).state ≠ .execute := by
  exact execute_within is hreset hr hw 5 1 (clocksLeft_le _) (step_aluBusy halu fun _ => hd)

end Filestick.FemtoRV32
