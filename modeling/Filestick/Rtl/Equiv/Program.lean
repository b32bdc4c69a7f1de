import Filestick.Rtl.Equiv.Fetch

/-!
# Programs on the core

* `Prepared.executes`: behind an instruction, the core is about to fetch the next one.
* `Executed.run`: what the core does to a memory behind the bus.
* `Program.executed`: the core executes a program instruction by instruction.
* `reset_fetching`: a reset leads to the place 0x20000.
* `Ready.mulhsu_iff`: where `mulhsu` is not that of the instruction set.
-/

namespace Filestick

open Riscv

namespace FemtoRV32

variable {s : FemtoRV32} {c : CpuInput} {i : Instr} {len : ℕ} {m m₀ : BitVec 24 → BitVec 8}
  {T : Set (BitVec 22)} {is : ℕ → CpuInput}

/-! ### Behind an instruction -/

/-- What has been decided about the next fetch. -/
structure Planned (s : FemtoRV32) : Prop where
  skip : s.state = .waitInstr ∨ s.state = .waitAluOrMemSkip →
    s.currentCacheHit = true ∧ s.fetchSecondHalf = false ∧
      ¬(s.cachedData.extractLsb' 16 2 = 3#2 ∧ s.pc.getLsbD 1 = true)
  second : s.fetchSecondHalf = true → s.currentCacheHit = true ∧
    s.cachedData.extractLsb' 16 2 = 3#2 ∧ s.pc.getLsbD 1 = true

/-- The same word is cached. -/
def SameCache (s s' : FemtoRV32) : Prop :=
  s'.cachedAddr = s.cachedAddr ∧ s'.cachedData = s.cachedData

/-- The clock of `EXECUTE` decides about it. -/
theorem clockExecute_planned (s : FemtoRV32) (c : CpuInput) (hwhole : s.fetchSecondHalf = false) :
    Planned (s.clockExecute c) ∧ SameCache s (s.clockExecute c) := by
  -- Without the next word in the cache, neither of the states that skip its fetch is entered.
  have hstop (st : CpuState) (hst : st = if s.needToWait then .waitAluOrMem else .fetchInstr) :
      ¬(st = .waitInstr ∨ st = .waitAluOrMemSkip) := by
    rw [hst]
    cases s.needToWait <;> decide
  have hkeep {s' : FemtoRV32} (hst : s'.state = if s.needToWait then .waitAluOrMem else .fetchInstr)
      (h2 : s'.fetchSecondHalf = s.fetchSecondHalf) : Planned s' :=
    ⟨fun h => absurd h (hstop _ hst), fun h => absurd ((h2.trans hwhole).symm.trans h) (by decide)⟩
  rw [clockExecute]
  by_cases hi : s.interrupt c = true
  · rw [if_pos hi]
    exact ⟨hkeep rfl rfl, rfl, rfl⟩
  rw [if_neg hi]
  by_cases ht : (s.ecall || s.ebreak || s.isILLEGAL || s.privViolation) = true
  · rw [if_pos ht]
    exact ⟨hkeep rfl rfl, rfl, rfl⟩
  · rw [if_neg ht]
    have hlong : s.nextUnalignedLong = true ↔
        s.cachedData.extractLsb' 16 2 = 3#2 ∧ s.pcNew.getLsbD 1 = true := by
      rw [nextUnalignedLong, Bool.and_eq_true, beq_iff_eq]
    refine ⟨⟨fun h => ?_, fun h => ?_⟩, rfl, rfl⟩
    · show s.nextCacheHit = true ∧ (s.nextCacheHit && s.nextUnalignedLong) = false ∧
        ¬(s.cachedData.extractLsb' 16 2 = 3#2 ∧ s.pcNew.getLsbD 1 = true)
      rw [← hlong]
      cases hhit : s.nextCacheHit with
      | false =>
        rw [hhit] at h
        exact absurd h (hstop _ rfl)
      | true =>
        cases hun : s.nextUnalignedLong with
        | true =>
          rw [hhit, hun] at h
          exact absurd h (hstop _ rfl)
        | false => exact ⟨rfl, rfl, Bool.false_ne_true⟩
    · have h' : (s.nextCacheHit && s.nextUnalignedLong) = true := h
      rw [Bool.and_eq_true] at h'
      exact ⟨h'.1, hlong.mp h'.2⟩

theorem Ready.step_planned {len : BitVec 24} (h : Ready s i len) (hreset : c.reset = true)
    (hwhole : s.fetchSecondHalf = false) : Planned (s.step c) ∧ SameCache s (s.step c) := by
  obtain ⟨hplan, hcache⟩ := s.clockExecute_planned c hwhole
  rw [← h.clockControl_eq hreset] at hplan hcache
  exact ⟨⟨hplan.skip, hplan.second⟩, hcache⟩

theorem Waits.step_planned (hw : s.Waits) (hreset : c.reset = true) (hp : Planned s) :
    Planned (s.step c) ∧ SameCache s (s.step c) := by
  have hcontrol := hw.clockControl_eq hreset
  have hplan : Planned (s.clockControl c) ∧ SameCache s (s.clockControl c) := by
    rw [hcontrol]
    refine ⟨⟨fun h => hp.skip ?_, hp.second⟩, rfl, rfl⟩
    rcases hw with hs | hs
    -- `WAIT_ALU_OR_MEM` goes on to a fetch that is not skipped.
    · have hno (b : Bool) (st : CpuState) (hst : st = .waitInstr ∨ st = .waitAluOrMemSkip) :
          ¬(if b then CpuState.waitAluOrMem else if CpuState.waitAluOrMem = .waitAluOrMem
            then .fetchInstr else .waitInstr) = st := by
        rcases hst with rfl | rfl <;> revert b <;> decide
      simp only [hs] at h
      rcases h with h | h
      · exact absurd h (hno _ _ (Or.inl rfl))
      · exact absurd h (hno _ _ (Or.inr rfl))
    · exact Or.inr hs
  exact ⟨⟨hplan.1.skip, hplan.1.second⟩, hplan.2⟩

theorem Ready.run_planned {len : BitVec 24} (h : Ready s i len) (hreset : ∀ t, (is t).reset = true)
    (hwhole : s.fetchSecondHalf = false) (k : ℕ)
    (hwaits : ∀ j, 1 ≤ j → j ≤ k → (s.after is j).Waits) :
    Planned (s.after is (k + 1)) ∧ SameCache s (s.after is (k + 1)) := by
  induction k with
  | zero => exact h.step_planned (hreset 0) hwhole
  | succ k ih =>
    obtain ⟨hplan, haddr, hdata⟩ := ih fun j h1 hj => hwaits j h1 (by omega)
    obtain ⟨hplan', haddr', hdata'⟩ :=
      (hwaits (k + 1) (by omega) (Nat.le_refl _)).step_planned (hreset (k + 1)) hplan
    exact ⟨hplan', haddr'.trans haddr, hdata'.trans hdata⟩

/-- The divider is idle behind an instruction. -/
theorem Ready.run_idle {len : BitVec 24} (h : Ready s i len) (hreset : ∀ t, (is t).reset = true)
    {k : ℕ} (hk : s.LastClock is k) (hwaits : ∀ j, 1 ≤ j → j ≤ k → (s.after is j).Waits) :
    (s.after is (k + 1)).quotientMsk = 0#32 := by
  have hlast := h.last_aluBusy hreset hk fun j h1 hj => hwaits j h1 (by omega)
  have hbusy : (s.after is (k + 1)).aluBusy = false := by
    refine step_aluBusy hlast fun hs => ?_
    cases k with
    | zero =>
      by_contra hdiv
      rw [Bool.not_eq_false] at hdiv
      have hdiv' : s.isDivide = true := hdiv
      rw [LastClock, hdiv', if_pos rfl] at hk
      exact absurd hk.1 (by decide)
    | succ k =>
      have hne := (hwaits (k + 1) (by omega) (Nat.le_refl _)).ne_execute
      rw [hs] at hne
      exact absurd hne (by decide)
  rw [aluBusy, bne_eq_false_iff_eq] at hbusy
  exact hbusy

/-- Nothing sets the register 0. -/
theorem Hart.write_zero (h : Hart) (p : Option (Reg × Word)) (b : Bool) :
    (h.write p).regs b 0#5 = h.regs b 0#5 := by
  cases p with
  | none => rfl
  | some p =>
    obtain ⟨rd, x⟩ := p
    rw [Hart.write]
    by_cases hrd : rd = 0#5
    · rw [if_pos hrd]
    · rw [if_neg hrd]
      show Function.update h.regs h.bank _ b 0#5 = _
      rw [Function.update_apply]
      split_ifs with hb
      · rw [Function.update_of_ne (Ne.symm hrd), hb]
      · rfl

theorem Hart.execute_zero (h : Hart) (e : Outside) (len : BitVec 24) (i : Instr) (b : Bool) :
    (h.execute e len i).regs b 0#5 = h.regs b 0#5 :=
  Hart.write_zero h _ b

/-- The bus lets an instruction come to an end. -/
theorem Bus.lastClock {len : BitVec 24} (hbus : Bus m T s is) (h : Ready s i len) :
    ∃ k, s.LastClock is k := by
  unfold LastClock
  cases hdiv : s.isDivide with
  | true =>
    obtain ⟨hw, -⟩ := h.dividing (d := 0#32) hbus.reset hdiv 32 (Nat.le_refl _)
    have hdiv' : (s.after is 33).isDivide = true := by
      rw [← hdiv, isDivide, isDivide, isALUreg, isALUreg, funcM, funcM, opcode, opcode, ins, ins,
        hw.instr]
    exact ⟨33, by rw [if_pos rfl]; exact ⟨rfl, hbus.quiet 33 hw.waits hdiv'⟩⟩
  | false =>
    cases s.needToWait with
    | true =>
      obtain ⟨n, hbusy, hready⟩ :=
        first_ready (p := fun n => (is (1 + n)).memRbusy || (is (1 + n)).memWbusy) (hbus.fair 1)
      refine ⟨1 + n, ?_⟩
      rw [if_neg Bool.false_ne_true, if_pos rfl]
      refine ⟨by omega, fun j h1 hj => ?_, hready⟩
      have hj' := hbusy (j - 1) (by omega)
      rwa [show 1 + (j - 1) = j by omega] at hj'
    | false => exact ⟨0, by rw [if_neg Bool.false_ne_true, if_neg Bool.false_ne_true]⟩

/-- **Behind an instruction** the core is about to fetch the next one. -/
theorem Prepared.executes (h : Prepared m T s i len) (hbus : Bus m T s is) :
    ∃ k, s.LastClock is k ∧ (s.after is (k + 1)).hart =
        s.hart.execute (s.outside (is 0) (is k).memRdata) (BitVec.ofNat 24 len) i ∧
      (∀ j, 1 ≤ j → j ≤ k → (s.after is j).Waits) ∧ Fetching m T (s.after is (k + 1)) := by
  obtain ⟨k, hk⟩ := hbus.lastClock h.toReady
  obtain ⟨hhart, hstate, hwaits⟩ := h.toReady.run hbus.reset hk
  obtain ⟨hplan, haddr, hdata⟩ := h.toReady.run_planned hbus.reset h.whole k hwaits
  refine ⟨k, hk, hhart, hwaits, ?_⟩
  constructor
  · exact hstate
  · exact fun hs => hplan.skip (Or.inl hs)
  · exact hplan.second
  · rw [haddr, hdata]
    exact h.coherent
  · intro b
    rw [hhart, Hart.execute_zero]
    exact h.zero b
  · exact h.toReady.run_idle hbus.reset hk hwaits

/-! ### Programs -/

/-- A program, as a set of what it lets the processor come to: the place is one that can be fetched,
there is an instruction, which does not store across words, and it leads to the same set, whatever
comes from outside. -/
def Program (m : BitVec 24 → BitVec 8) (T : Set (BitVec 22)) (P : Hart → Prop) : Prop :=
  ∀ h, P h → Hart.Open h ∧ ∃ i len, Decodes (parcel m h.pc) i len ∧ Reaches T h len ∧
    h.Aligned i ∧ ∀ e, P (h.execute e (BitVec.ofNat 24 len) i)

/-- The core has executed `n` instructions in `t` clocks: each is fetched from the clock `t` on,
executed on the clock `u`, where it makes its access to the memory, and done with the clock
`u + k`. -/
inductive Executed (m : BitVec 24 → BitVec 8) (s : FemtoRV32) (is : ℕ → CpuInput) : ℕ → ℕ → Prop
  | start : Executed m s is 0 0
  | next {n t u k len : ℕ} {i : Instr} (before : Executed m s is n t) (fetch : t ≤ u)
      (fetches : ∀ j, t ≤ j → j < u → (s.after is j).Fetches)
      (ready : Ready (s.after is u) i (BitVec.ofNat 24 len))
      (decodes : Decodes (parcel m (s.after is t).pc) i len)
      (access : (s.after is u).busAccess = (s.after is t).hart.access i)
      (last : (s.after is u).LastClock (fun j => is (u + j)) k)
      (waits : ∀ j, u < j → j ≤ u + k → (s.after is j).Waits ∧ (s.after is j).busAccess = none)
      (hart : (s.after is (u + k + 1)).hart = (s.after is t).hart.execute
        ((s.after is u).outside (is u) (is (u + k)).memRdata) (BitVec.ofNat 24 len) i) :
      Executed m s is (n + 1) (u + k + 1)

/-- A program goes on, instruction by instruction. -/
theorem Program.exists_executed {P : Hart → Prop} (hprog : Program m T P) (hbus : Bus m T s is)
    (hf : Fetching m T s) (hp : P s.hart) (n : ℕ) :
    ∃ t, Executed m s is n t ∧ Fetching m T (s.after is t) ∧ P (s.after is t).hart := by
  induction n with
  | zero => exact ⟨0, .start, hf, hp⟩
  | succ n ih =>
    obtain ⟨t, hrun, hft, hpt⟩ := ih
    obtain ⟨hopen, i, len, hd, hreach, haligned, hnext⟩ := hprog _ hpt
    obtain ⟨a, hhart, hfetches, hprep⟩ := hft.prepares (hbus.shift t) hopen hd hreach
    rw [← after_add] at hhart hprep
    -- `a` clocks of fetching, and `k` clocks behind that of `EXECUTE`.
    obtain ⟨k, hlast, hexec, hwaits, hft'⟩ := hprep.executes (hbus.shift (t + a))
    rw [← after_add] at hexec hft'
    rw [hhart] at hexec
    have haccess : (s.after is (t + a)).busAccess = (s.after is t).hart.access i := by
      rw [← hhart] at haligned ⊢
      exact hprep.toReady.busAccess_eq haligned
    refine ⟨t + a + k + 1, .next hrun (Nat.le_add_right t a) ?_ hprep.toReady hd haccess hlast ?_
      hexec, hft', ?_⟩
    · intro j hj hja
      have hw := hfetches (j - t) (by omega)
      rw [← after_add] at hw
      rwa [show t + (j - t) = j by omega] at hw
    · intro j hj hjk
      have hw := hwaits (j - (t + a)) (by omega) (by omega)
      rw [← after_add] at hw
      rw [show t + a + (j - (t + a)) = j by omega] at hw
      exact ⟨hw, hw.busAccess_eq⟩
    · rw [show (s.after is (t + a + k + 1)).hart = _ from hexec]
      exact hnext _

/-- The memory on a clock: the core has made its accesses of the clocks before. -/
def memory (m₀ : BitVec 24 → BitVec 8) (s : FemtoRV32) (is : ℕ → CpuInput) :
    ℕ → BitVec 24 → BitVec 8
  | 0 => m₀
  | t + 1 => afterAccess (memory m₀ s is t) (s.after is t).busAccess

/-- The bus answers a load with the word of the memory, on the last clock of the instruction. -/
def Answers (m₀ : BitVec 24 → BitVec 8) (s : FemtoRV32) (is : ℕ → CpuInput) : Prop :=
  ∀ u k w, (s.after is u).state = .execute → (s.after is u).busAccess = some (.read w) →
    (s.after is u).LastClock (fun j => is (u + j)) k →
      (is (u + k)).memRdata = word (memory m₀ s is u) w

theorem Fetches.busAccess_eq (hf : s.Fetches) (m : BitVec 24 → BitVec 8) :
    afterAccess m s.busAccess = m := by
  rw [busAccess, memRstrb, memWmask]
  rcases hf with h | h <;> rw [h] <;> rfl

/-- Nothing is written while the core fetches. -/
theorem memory_fetches {t u : ℕ} (htu : t ≤ u)
    (hf : ∀ j, t ≤ j → j < u → (s.after is j).Fetches) :
    memory m₀ s is u = memory m₀ s is t := by
  induction u, htu using Nat.le_induction with
  | base => rfl
  | succ u htu ih =>
    rw [memory, (hf u htu (Nat.lt_succ_self u)).busAccess_eq]
    exact ih fun j hj hju => hf j hj (by omega)

/-- Nothing is written while it waits. -/
theorem memory_waits {u : ℕ} (k : ℕ)
    (hw : ∀ j, u < j → j ≤ u + k → (s.after is j).Waits ∧ (s.after is j).busAccess = none) :
    memory m₀ s is (u + k + 1) = memory m₀ s is (u + 1) := by
  induction k with
  | zero => rfl
  | succ k ih =>
    have hnone := (hw (u + k + 1) (by omega) (by omega)).2
    have hstep : memory m₀ s is (u + (k + 1) + 1) =
        afterAccess (memory m₀ s is (u + k + 1)) (s.after is (u + k + 1)).busAccess := rfl
    rw [hstep, hnone]
    exact ih fun j hj hjk => hw j hj (by omega)

/-- **The core on a memory** does what the instructions of the program do. -/
theorem Executed.run {n t : ℕ} (hrun : Executed m s is n t) (hanswers : Answers m₀ s is) :
    Hart.Run m s.hart m₀ n (s.after is t).hart (memory m₀ s is t) := by
  induction hrun with
  | start => exact .start
  | @next n t u k len i before fetch fetches ready decodes access last waits hart ih =>
    -- Only the clock `u` can have written.
    have hsame : memory m₀ s is u = memory m₀ s is t := memory_fetches fetch fetches
    have hmem : memory m₀ s is (u + k + 1) =
        afterAccess (memory m₀ s is t) ((s.after is t).hart.access i) := by
      rw [memory_waits k waits, memory, hsame, access]
    rw [hmem, hart]
    have hexec : (s.after is t).hart.execute
        ((s.after is u).outside (is u) (is (u + k)).memRdata) (BitVec.ofNat 24 len) i =
        (s.after is t).hart.execute ⟨(is u).interruptRequest, (s.after is u).cycles,
          (s.after is t).hart.answer (memory m₀ s is t) i⟩ (BitVec.ofNat 24 len) i := by
      refine Hart.execute_congr _ _ rfl rfl ?_
      rintro op rd rs1 imm rfl
      have hdata := hanswers u k _ ready.state access last
      rw [hsame] at hdata
      exact hdata
    rw [hexec]
    exact .next ih decodes _ _

/-- A memory in which every word is the instruction `jal x0, 0`. -/
def selfLoop (b : BitVec 24) : BitVec 8 := if b.setWidth 2 = 0#2 then 0x6F#8 else 0#8

/-- The core behind a reset, about to fetch. -/
def fetchingCore : FemtoRV32 := step powerUp (clockInput 0#32 false)

theorem word_selfLoop (w : BitVec 22) : word selfLoop w = 0x6F#32 := by
  unfold word selfLoop
  simp only [BitVec.setWidth_append_eq_right]
  decide

theorem selfLoop_program : Program selfLoop {0x8000#22} fun h =>
    h.pc = 0x20000#24 ∧ h.sMode = true ∧ h.mstatus = false ∧ h.pending = false := by
  rintro h ⟨hpc, hsMode, hmstatus, hpending⟩
  have hparcel : parcel selfLoop 0x20000#24 = (Instr.jal 0#5 0#20).encode := by decide
  have htrap : h.trap (.jal 0#5 0#20) = none := by
    show (if h.pending then some 5#4 else none) = none
    rw [hpending]
    rfl
  have hinterrupt (e : Outside) : h.interrupted e = false := by
    rw [Hart.interrupted, hmstatus, Bool.and_false, Bool.false_and]
  refine ⟨?_, .jal 0#5 0#20, 4, ?_, ⟨?_, ?_⟩, trivial, fun e => ⟨?_, ?_, ?_, ?_⟩⟩
  · intro hp
    rw [Hart.privileged, hsMode, Bool.true_or] at hp
    exact absurd hp (by decide)
  · rw [hpc, hparcel]
    exact .long _
  · rw [hpc, Set.mem_singleton_iff]
    decide
  · have hbit : (0x20000#24).getLsbD 1 = false := by decide
    rw [hpc]
    exact fun _ h1 => absurd (hbit.symm.trans h1) (by decide)
  · have hzero : (0#20 ++ 0#1 : BitVec 21).signExtend 24 = 0#24 := by decide
    show (h.redirect e (h.pc + (0#20 ++ 0#1 : BitVec 21).signExtend 24) (.jal 0#5 0#20)).pc = _
    rw [Hart.redirect, hinterrupt, htrap, hzero, BitVec.add_zero, hpc]
    rfl
  · show (if h.leavesS e (.jal 0#5 0#20) then false
      else if (h.trap (.jal 0#5 0#20)).isSome then true else h.sMode) = true
    rw [htrap, hsMode]
    rfl
  · exact hmstatus
  · show ((!h.privileged && h.pending || false) && _) = false
    rw [hpending, Bool.and_false]
    rfl

theorem selfLoop_bus :
    Bus selfLoop {0x8000#22} fetchingCore fun _ => clockInput 0x6F#32 false := by
  refine ⟨fun _ => rfl, fun t _ _ => ⟨0, fun j hj => absurd hj (Nat.not_lt_zero j), rfl, ?_⟩,
    fun _ => ⟨0, rfl⟩, fun _ _ _ => rfl⟩
  rw [word_selfLoop]
  rfl

/-- The core has waited for `n` clocks in a privileged mode. -/
structure Resetting (s : FemtoRV32) (n : ℕ) (s' : FemtoRV32) : Prop where
  waits : s'.Waits
  hart : s'.hart = { s.hart with regs := s'.hart.regs }
  mode : s'.privMode = true
  planned : Planned s'
  cache : SameCache s s'
  zero : ∀ b, s'.hart.regs b 0#5 = 0#32
  mask : s'.quotientMsk = s.quotientMsk >>> n

/-- What one more clock leaves, whether it is the last one or not. -/
theorem Resetting.keeps {s' : FemtoRV32} {n : ℕ} (h : Resetting s n s') (hreset : c.reset = true) :
    (s'.step c).hart = { s.hart with regs := (s'.step c).hart.regs } ∧
      (s'.step c).privMode = true ∧ Planned (s'.step c) ∧ SameCache s (s'.step c) ∧
      (∀ b, (s'.step c).hart.regs b 0#5 = 0#32) ∧
      (s'.step c).quotientMsk = s.quotientMsk >>> (n + 1) := by
  have hw := h.waits
  obtain ⟨hplan, haddr, hdata⟩ := hw.step_planned hreset h.planned
  -- In a privileged mode there is nothing to note.
  have hnoted : s'.Noted := fun hp => absurd (h.mode.symm.trans hp) (by decide)
  have hhart := hw.step_hart hnoted hreset
  have hwr : (s'.isDivide && s'.aluWr) = false := by
    rw [aluWr, hw.ne_execute, Bool.false_and, Bool.and_false]
  have hmask : (s'.step c).quotientMsk = s'.clockDivider.quotientMsk := rfl
  refine ⟨?_, (hw.privMode_eq hreset).trans h.mode, hplan,
    ⟨haddr.trans h.cache.1, hdata.trans h.cache.2⟩, fun b => ?_, ?_⟩
  · rw [hhart, h.hart]
  · rw [step_regs, ← h.zero b]
    cases s'.writeBack with
    | false => rfl
    | true => exact Hart.write_zero _ _ _
  · rw [hmask, clockDivider, hwr, BitVec.shiftRight_add, ← h.mask]
    rfl

theorem Resetting.run (h : Resetting s 0 s) (hreset : ∀ t, (is t).reset = true) (n : ℕ)
    (hbusy : ∀ j < n, (s.after is j).busy (is j) = true) : Resetting s n (s.after is n) := by
  induction n with
  | zero => exact h
  | succ n ih =>
    have hn := ih fun j hj => hbusy j (by omega)
    obtain ⟨hhart, hmode, hplan, hcache, hzero, hmask⟩ := hn.keeps (hreset n)
    refine ⟨?_, hhart, hmode, hplan, hcache, hzero, hmask⟩
    have hstate := congrArg FemtoRV32.state (hn.waits.clockControl_eq (hreset n))
    simp only [hbusy n (Nat.lt_succ_self n), if_true] at hstate
    have hstate' : (s.after is (n + 1)).state = (s.after is n).state := hstate
    rw [Waits, hstate']
    exact hn.waits

/-- It does not wait forever: the divider, which a reset does not stop, is done after 32 clocks. -/
theorem Resetting.ends (h : Resetting s 0 s) (hreset : ∀ t, (is t).reset = true)
    (hfair : ∀ t, ∃ n, ((is (t + n)).memRbusy || (is (t + n)).memWbusy) = false) :
    ∃ n, (∀ j < n, (s.after is j).busy (is j) = true) ∧ (s.after is n).busy (is n) = false := by
  refine first_ready (p := fun n => (s.after is n).busy (is n)) ?_
  by_contra hall
  have hbusy (j : ℕ) : (s.after is j).busy (is j) = true := by
    by_contra hj
    exact hall ⟨j, Bool.eq_false_of_not_eq_true hj⟩
  -- Behind 32 clocks the mask is 0, whatever it was at the reset.
  obtain ⟨n, hn⟩ := hfair 32
  have hmask := (h.run hreset (32 + n) fun j _ => hbusy j).mask
  rw [BitVec.ushiftRight_eq_zero (by omega)] at hmask
  have hidle := hbusy (32 + n)
  rw [busy, aluBusy, hmask, Bool.or_assoc, hn] at hidle
  exact absurd hidle (by decide)

/-- The upper half of a product with one signed operand. -/
theorem mulhsu_eval (x y : Word) :
    MulDiv.mulhsu.eval x y = (x.setWidth 64 * y.setWidth 64).extractLsb' 32 32 -
      if x.msb then y else 0#32 := by
  have hx := x.isLt
  have hy := y.isLt
  have hp : x.toNat * y.toNat < 2 ^ 64 := by
    calc x.toNat * y.toNat < 2 ^ 32 * 2 ^ 32 := Nat.mul_lt_mul'' hx hy
      _ = 2 ^ 64 := by norm_num
  rw [MulDiv.eval]
  apply BitVec.eq_of_toNat_eq
  cases hmsb : x.msb with
  | true =>
    -- Modulo 2^64, the sign subtracts `y` from the upper half.
    have hsign : (x.signExtend 64).toNat = x.toNat + (2 ^ 64 - 2 ^ 32) := by
      rw [BitVec.toNat_signExtend, hmsb, if_pos rfl, BitVec.toNat_setWidth]
      omega
    have hmul : (x.toNat + (2 ^ 64 - 2 ^ 32)) * y.toNat =
        x.toNat * y.toNat + (2 ^ 64 - 2 ^ 32) * y.toNat := Nat.add_mul _ _ _
    rw [if_pos rfl, BitVec.extractLsb'_toNat, BitVec.toNat_mul, hsign, BitVec.toNat_sub,
      BitVec.extractLsb'_toNat, BitVec.toNat_mul, BitVec.toNat_setWidth, BitVec.toNat_setWidth,
      Nat.shiftRight_eq_div_pow, Nat.shiftRight_eq_div_pow,
      Nat.mod_eq_of_lt (by omega : y.toNat < _), Nat.mod_eq_of_lt (by omega : x.toNat < _), hmul]
    generalize x.toNat * y.toNat = p at hp ⊢
    omega
  | false =>
    rw [if_neg Bool.false_ne_true, BitVec.sub_zero,
      BitVec.signExtend_eq_setWidth_of_msb_false hmsb]

/-- **`mulhsu`** of the core is that of the instruction set only for some operands. -/
theorem Ready.mulhsu_iff {len : BitVec 24} {rd rs1 rs2 : Reg}
    (h : Ready s (.muldiv .mulhsu rd rs1 rs2) len) (hreset : c.reset = true) (hrd : rd ≠ 0#5) :
    (s.step c).hart.get rd = MulDiv.mulhsu.eval (s.hart.get rs1) (s.hart.get rs2) ↔
      (if (s.hart.get rs2).msb then s.hart.get rs1 else 0#32) =
        if (s.hart.get rs1).msb then s.hart.get rs2 else 0#32 := by
  have hf : Holds s 1#7 rs2 rs1 2#3 rd 0b01100#5 := h.instr
  have hwait : s.needToWait = false := by
    rw [needToWait, isLoad, isStore, isDivide, hf.opcode_eq, hf.bit14_eq]
    exact Bool.and_false _
  have hexec := h.step_execute (d := 0#32) hreset hwait
  have hget : (s.step c).hart.get rd = MulDiv.mulhsu.eval (s.hart.get rs2) (s.hart.get rs1) := by
    rw [hexec, Hart.get, if_neg hrd]
    show (s.hart.write (some (rd, Hart.muldiv .mulhsu _ _))).regs s.hart.bank rd = _
    rw [Hart.write, if_neg hrd]
    show Function.update s.hart.regs s.hart.bank _ s.hart.bank rd = _
    rw [Function.update_self, Function.update_self]
    rfl
  -- The two upper halves are those of the same product, less what the signs subtract.
  rw [hget, mulhsu_eval, mulhsu_eval]
  have hcomm : ((s.hart.get rs2).setWidth 64 * (s.hart.get rs1).setWidth 64 : BitVec 64) =
      (s.hart.get rs1).setWidth 64 * (s.hart.get rs2).setWidth 64 := BitVec.mul_comm _ _
  rw [hcomm]
  generalize ((s.hart.get rs1).setWidth 64 * (s.hart.get rs2).setWidth 64 : BitVec 64) = p
  constructor
  · intro heq
    bv_omega
  · intro heq
    rw [heq]

/-- The core about to execute an instruction that it has fetched behind a reset. -/
def executing (instr : BitVec 32) : FemtoRV32 :=
  Machine.run step powerUp (clockInput 0#32 false :: (instrClocks instr false).take 2)

/-- `mulhsu` of the two empty registers behind a reset. -/
theorem mulhsu_zero :
    (((executing (Instr.muldiv .mulhsu 1#5 2#5 3#5).encode).step (clockInput 0#32 false)).hart.get
        1#5 = MulDiv.mulhsu.eval
          ((executing (Instr.muldiv .mulhsu 1#5 2#5 3#5).encode).hart.get 2#5)
          ((executing (Instr.muldiv .mulhsu 1#5 2#5 3#5).encode).hart.get 3#5)) ↔
      (if ((executing (Instr.muldiv .mulhsu 1#5 2#5 3#5).encode).hart.get 3#5).msb then
          (executing (Instr.muldiv .mulhsu 1#5 2#5 3#5).encode).hart.get 2#5 else 0#32) =
        if ((executing (Instr.muldiv .mulhsu 1#5 2#5 3#5).encode).hart.get 2#5).msb then
          (executing (Instr.muldiv .mulhsu 1#5 2#5 3#5).encode).hart.get 3#5 else 0#32 :=
  Ready.mulhsu_iff
    (show Ready _ (.muldiv .mulhsu 1#5 2#5 3#5) 4#24 from
      ⟨by decide +kernel, by decide +kernel, by decide +kernel, by decide +kernel,
        by decide +kernel, by decide +kernel, by decide +kernel, by decide +kernel⟩)
    rfl (by decide)

end FemtoRV32

end Filestick
