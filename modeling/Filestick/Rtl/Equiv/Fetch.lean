import Filestick.Rtl.Equiv.Instruction
import Mathlib.Data.Set.Defs

/-!
# Fetching an instruction

* `parcel_eq`, `Decodes.decompress`: the 32 bits at a program counter, in one word or in two, and
  what the decoder makes of them.
* `Fetching`, `Prepared`: the core is about to fetch an instruction, and about to execute it.
* `Bus`: what the core expects of the bus.
* `Fetching.prepares`: the next instruction is fetched and decoded.
-/

namespace Filestick

open Riscv

/-! ### The words of an instruction -/

namespace Riscv

variable {x y : Word} {i : Instr} {len : ℕ}

theorem next_half (pc : BitVec 24) :
    pc.extractLsb' 1 23 + 1 = (pc + 2#24).extractLsb' 1 23 := by
  apply BitVec.eq_of_toNat_eq
  simp only [BitVec.toNat_add, BitVec.extractLsb'_toNat, Nat.shiftRight_eq_div_pow]
  have hlt := pc.isLt
  have h2 : (2#24).toNat = 2 := rfl
  have h1 : (1 : BitVec 23).toNat = 1 := rfl
  rw [h1, h2]
  omega

theorem toNat_high (pc : BitVec 24) : (pc.extractLsb' 2 22).toNat = pc.toNat / 4 := by
  have hlt := pc.isLt
  rw [BitVec.extractLsb'_toNat, Nat.shiftRight_eq_div_pow]
  omega

theorem bit_one (pc : BitVec 24) : pc.getLsbD 1 = decide (pc.toNat / 2 % 2 = 1) := by
  rw [← BitVec.testBit_toNat, Nat.testBit_eq_decide_div_mod_eq, pow_one]

/-- The 32 bits at a program counter are those of a word, or of two halves. -/
theorem parcel_eq (m : BitVec 24 → BitVec 8) (pc : BitVec 24) :
    parcel m pc =
      if pc.getLsbD 1 then (word m ((pc + 4#24).extractLsb' 2 22)).extractLsb' 0 16 ++
        (word m (pc.extractLsb' 2 22)).extractLsb' 16 16
      else word m (pc.extractLsb' 2 22) := by
  have hlt := pc.isLt
  have h2 : (pc + 2#24).toNat = (pc.toNat + 2) % 2 ^ 24 := BitVec.toNat_add _ _
  have h4 : (pc + 4#24).toNat = (pc.toNat + 4) % 2 ^ 24 := BitVec.toNat_add _ _
  have hbit : (pc + 2#24).getLsbD 1 = !pc.getLsbD 1 := by
    rw [bit_one, bit_one, h2, ← decide_not, decide_eq_decide]
    omega
  rw [parcel, next_half, half_word, half_word, hbit]
  -- Behind the upper half of a word comes the lower half of the next one.
  cases h1 : pc.getLsbD 1 with
  | true =>
    have hword : (pc + 2#24).extractLsb' 2 22 = (pc + 4#24).extractLsb' 2 22 := by
      rw [bit_one, decide_eq_true_eq] at h1
      apply BitVec.eq_of_toNat_eq
      rw [toNat_high, toNat_high, h2, h4]
      omega
    rw [hword]
    rfl
  | false =>
    have hword : (pc + 2#24).extractLsb' 2 22 = pc.extractLsb' 2 22 := by
      rw [bit_one, decide_eq_false_iff_not] at h1
      apply BitVec.eq_of_toNat_eq
      rw [toNat_high, toNat_high, h2]
      omega
    rw [hword]
    exact BitVec.extractLsb'_append_extractLsb'

/-- The low bits of a compressed instruction. -/
theorem Compressed.op_ne (c : Compressed) : c.slots.op ≠ 3#2 := by
  have h0 : (0b00#2 : BitVec 2) ≠ 3#2 := by decide
  have h1 : (0b01#2 : BitVec 2) ≠ 3#2 := by decide
  have h2 : (0b10#2 : BitVec 2) ≠ 3#2 := by decide
  cases c <;> first | exact h0 | exact h1 | exact h2

/-- The decoder expands an instruction, and finds out how long it is. -/
theorem Decodes.decompress (h : Decodes x i len) :
    decompressor x = i.encode ∧
      BitVec.ofNat 24 len = if x.extractLsb' 0 2 == 0b11#2 then 4#24 else 2#24 := by
  cases h with
  | long i =>
    have hlow : i.encode.extractLsb' 0 2 = 3#2 := BitVec.extractLsb'_append_eq_right
    rw [hlow]
    exact ⟨decompressor_long i, rfl⟩
  | short hi hc =>
    rename_i c
    have hlow : (hi ++ c.encode).extractLsb' 0 2 = c.slots.op := field_op hi c
    rw [hlow, if_neg]
    · exact ⟨decompressor_encode hi hc, rfl⟩
    · rw [beq_iff_eq]
      exact c.op_ne

/-- Nothing else is looked at behind a short instruction. -/
theorem Decodes.low (h : Decodes x i len) (hlow : x.extractLsb' 0 2 ≠ 3#2)
    (hxy : y.extractLsb' 0 16 = x.extractLsb' 0 16) : Decodes y i len := by
  cases h with
  | long i => exact absurd BitVec.extractLsb'_append_eq_right hlow
  | short hi hc =>
    rename_i c
    have hc' : (hi ++ c.encode).extractLsb' 0 16 = c.encode := BitVec.extractLsb'_append_eq_right
    have hy : y = y.extractLsb' 16 16 ++ c.encode := by
      rw [← hc', ← hxy]
      exact (@BitVec.extractLsb'_append_extractLsb' 16 16 y).symm
    rw [hy]
    exact Decodes.short _ hc

/-- At an odd half word, the upper half of the word tells a long instruction. -/
theorem Decodes.second_iff {m : BitVec 24 → BitVec 8} {pc : BitVec 24}
    (hd : Decodes (parcel m pc) i len) (h1 : pc.getLsbD 1 = true) :
    (word m (pc.extractLsb' 2 22)).extractLsb' 16 2 = 3#2 ↔ len = 4 := by
  have hlow : (parcel m pc).extractLsb' 0 2 =
      (word m (pc.extractLsb' 2 22)).extractLsb' 16 2 := by
    rw [parcel_eq, if_pos h1]
    simp (disch := decide) only [BitVec.extractLsb'_append_eq_of_add_le]
    apply BitVec.eq_of_getLsbD_eq
    intro k hk
    rw [BitVec.getLsbD_extractLsb', BitVec.getLsbD_extractLsb', BitVec.getLsbD_extractLsb',
      decide_eq_true hk, decide_eq_true (by omega : 0 + k < 16), Bool.true_and, Bool.true_and,
      Nat.zero_add]
    rfl
  rw [← hlow]
  generalize parcel m pc = x at hd
  cases hd with
  | long i => exact ⟨fun _ => rfl, fun _ => BitVec.extractLsb'_append_eq_right⟩
  | short hi hc =>
    rename_i comp
    have hop : (hi ++ comp.encode).extractLsb' 0 2 = comp.slots.op := field_op hi comp
    rw [hop]
    exact ⟨fun h => absurd h comp.op_ne, fun h => absurd h (by decide)⟩

end Riscv

namespace FemtoRV32

variable {s : FemtoRV32} {c : CpuInput} {i : Instr} {len : ℕ} {m : BitVec 24 → BitVec 8}
  {T : Set (BitVec 22)}

/-! ### The clocks of a fetch -/

/-- The core fetches an instruction. -/
def Fetches (s : FemtoRV32) : Prop := s.state = .fetchInstr ∨ s.state = .waitInstr

/-- Outside the privileged modes, programs are not below 64 KiB, nor at the very end. -/
def Hart.Open (h : Hart) : Prop :=
  h.privileged = false → 65536 ≤ h.pc.toNat ∧ h.pc.toNat + 4 < 2 ^ 24

theorem Fetches.ne_execute (hf : s.Fetches) : (s.state == .execute) = false := by
  rcases hf with h | h <;> rw [h] <;> rfl

theorem Fetches.memAddr_eq (hf : s.Fetches) : s.memAddr =
    (if s.fetchSecondHalf then s.pc + 4#24 else s.pc).extractLsb' 2 22 ++ 0#2 :=
  if_pos hf.symm

theorem Fetches.privRequired_eq (hf : s.Fetches) (hopen : Hart.Open s.hart)
    (hp : s.privMode = false) : s.privRequired = false := by
  obtain ⟨hlow, hhigh⟩ := hopen hp
  have hpc : s.hart.pc = s.pc := rfl
  rw [hpc] at hlow hhigh
  have hword (x : BitVec 24) : (x.extractLsb' 2 22 ++ 0#2).toNat = 4 * (x.toNat / 4) := by
    rw [BitVec.toNat_append, ← Nat.shiftLeft_add_eq_or_of_lt (BitVec.isLt _), toNat_high,
      Nat.shiftLeft_eq]
    have h0 : (0#2).toNat = 0 := rfl
    omega
  have haddr : ¬s.memAddr.toNat < 65536 := by
    rw [hf.memAddr_eq, hword]
    cases s.fetchSecondHalf with
    | true =>
      have h4 : (s.pc + 4#24).toNat = (s.pc.toNat + 4) % 2 ^ 24 := BitVec.toNat_add _ _
      rw [if_pos rfl, h4]
      omega
    | false =>
      rw [if_neg Bool.false_ne_true]
      omega
  rw [privRequired, decide_eq_false haddr, Bool.and_false]

theorem Fetches.step_sMode (hf : s.Fetches) (hreset : c.reset = true) :
    (s.step c).sMode = s.sMode := by
  show (if s.sClear then false else if s.sSet || !c.reset then true else s.sMode) = s.sMode
  rw [sClear, sSet, hf.ne_execute, hreset]
  rfl

theorem Fetches.step_mMode (hf : s.Fetches) : (s.step c).mMode = s.mMode := by
  show (if s.mClear then false else if s.mSet c then true else s.mMode) = s.mMode
  rw [mClear, mSet, hf.ne_execute]
  rfl

theorem Fetches.step_regs (hf : s.Fetches) : (s.step c).hart.regs = s.hart.regs := by
  have hwrite : s.writeBack = false := by
    rw [writeBack]
    rcases hf with h | h <;> rw [h] <;> exact Bool.and_false _
  rw [FemtoRV32.step_regs, hwrite, if_neg Bool.false_ne_true]

/-- A program sees nothing of a fetch. -/
theorem Fetches.step_hart (hf : s.Fetches) (hreset : c.reset = true)
    (hopen : Hart.Open s.hart) : (s.step c).hart = s.hart := by
  have hcontrol : (s.clockControl c).hart = s.hart := by
    rcases hf with h | h
    · rw [clockControl, hreset, h]
      rfl
    · rw [clockControl, hreset, h]
      show (s.clockWaitInstr c).hart = s.hart
      rw [clockWaitInstr]
      cases c.memRbusy <;> rfl
  have hcsr : s.clockCsr c = s := by
    rw [clockCsr, hreset, csrExecute, hf.ne_execute, Bool.and_false]
    rfl
  have hviolation : (s.step c).privViolation = if !c.reset then false
      else if s.privMode then false else if s.privRequired then true else s.privViolation := rfl
  have hstval : (s.step c).stval = if !c.reset then 0#24 else if s.privMode then s.stval
      else if s.privRequired then s.memAddr else s.stval := rfl
  have hstval' : (s.step c).stval = s.stval := by
    rw [hstval, hreset]
    cases hp : s.privMode with
    | true => rfl
    | false => rw [hf.privRequired_eq hopen hp]; rfl
  have hmode : (s.step c).privMode = s.privMode := by
    rw [privMode, privMode, hf.step_sMode hreset, hf.step_mMode]
  have hpending : (s.step c).hart.pending = s.hart.pending := by
    show ((s.step c).privViolation && !(s.step c).privMode) = (s.privViolation && !s.privMode)
    rw [hmode, hviolation, hreset]
    cases hp : s.privMode with
    | true => rw [Bool.not_true, Bool.and_false, Bool.and_false]
    | false => rw [hf.privRequired_eq hopen hp]; rfl
  have hbank := congrArg bankSelect hcsr
  have hpc := congrArg Hart.pc hcontrol
  have hmstatus := congrArg mstatus hcsr
  have hmcause := congrArg Hart.mcause hcontrol
  have hmtvec := congrArg mtvec hcsr
  have hmepc := congrArg Hart.mepc hcontrol
  have hmscratch := congrArg mscratch hcsr
  have hstvec := congrArg stvec hcsr
  have hsepc := congrArg Hart.sepc hcontrol
  have hsscratch := congrArg sscratch hcsr
  have hscause := congrArg Hart.scause hcontrol
  exact Hart.ext hf.step_regs hbank hpc hmstatus hmcause hmtvec hmepc hmscratch hstvec hsepc
    hsscratch hscause hstval' (hf.step_sMode hreset) hf.step_mMode hpending

theorem Fetches.step_calm (hf : s.Fetches) (hreset : c.reset = true) :
    (s.step c).privMode = true → (s.step c).privViolation = false := by
  intro hp
  rw [privMode, hf.step_sMode hreset, hf.step_mMode] at hp
  show (if !c.reset then false else if s.privMode then false
    else if s.privRequired then true else s.privViolation) = false
  rw [hreset, privMode, hp]
  rfl

theorem Fetches.step_idle (hf : s.Fetches) (hidle : s.quotientMsk = 0#32) :
    (s.step c).quotientMsk = 0#32 := by
  have h := step_aluBusy (s := s) (i := c) (by rw [aluBusy, hidle]; rfl) fun h => by
    have hne := hf.ne_execute
    rw [h] at hne
    exact absurd hne (by decide)
  rw [aluBusy, bne_eq_false_iff_eq] at h
  exact h

/-! ### Decoding -/

/-- The words of an instruction are in `T`. -/
def Reaches (T : Set (BitVec 22)) (h : Hart) (len : ℕ) : Prop :=
  h.pc.extractLsb' 2 22 ∈ T ∧
    (len = 4 → h.pc.getLsbD 1 = true → (h.pc + 4#24).extractLsb' 2 22 ∈ T)

/-- The core is about to fetch the next instruction; `m` is the memory, as far as its words are in
`T`. -/
structure Fetching (m : BitVec 24 → BitVec 8) (T : Set (BitVec 22)) (s : FemtoRV32) : Prop where
  fetches : s.Fetches
  skip : s.state = .waitInstr → s.currentCacheHit = true ∧ s.fetchSecondHalf = false ∧
    ¬(s.cachedData.extractLsb' 16 2 = 3#2 ∧ s.pc.getLsbD 1 = true)
  second : s.fetchSecondHalf = true → s.currentCacheHit = true ∧
    s.cachedData.extractLsb' 16 2 = 3#2 ∧ s.pc.getLsbD 1 = true
  coherent : s.cachedAddr ∈ T → s.cachedData = word m s.cachedAddr
  zero : ∀ b, s.hart.regs b 0#5 = 0#32
  idle : s.quotientMsk = 0#32

/-- The input of the decoder. -/
structure Decoding (m : BitVec 24 → BitVec 8) (s : FemtoRV32) (c : CpuInput) : Prop where
  state : s.state = .waitInstr
  ready : c.memRbusy = false
  first : s.cachedMem c = word m (s.pc.extractLsb' 2 22)
  second : s.fetchSecondHalf = true → c.memRdata = word m ((s.pc + 4#24).extractLsb' 2 22)
  zero : ∀ b, s.hart.regs b 0#5 = 0#32
  idle : s.quotientMsk = 0#32

/-- A second word has to be fetched. -/
theorem Decoding.unaligned_iff (h : Decoding m s c) (hd : Decodes (parcel m s.pc) i len) :
    s.currentUnalignedLong c = true ↔ len = 4 ∧ s.pc.getLsbD 1 = true := by
  rw [currentUnalignedLong, Bool.and_eq_true, beq_iff_eq, h.first]
  exact and_congr_left hd.second_iff

/-- What the decoder sees is the instruction. -/
theorem Decoding.decodes (h : Decoding m s c) (hd : Decodes (parcel m s.pc) i len)
    (hwhole : (s.currentUnalignedLong c && !s.fetchSecondHalf) = false) :
    Decodes (s.decompInput c) i len := by
  have hparcel := parcel_eq m s.pc
  rw [decompInput, h.first]
  cases h1 : s.pc.getLsbD 1 with
  | false =>
    rw [h1, if_neg Bool.false_ne_true] at hparcel
    rw [if_neg Bool.false_ne_true, ← hparcel]
    exact hd
  | true =>
    rw [h1, if_pos rfl] at hparcel
    rw [if_pos rfl]
    cases h2 : s.fetchSecondHalf with
    | true =>
      rw [h.second h2, ← hparcel]
      exact hd
    | false =>
      rw [h2, Bool.not_false, Bool.and_true] at hwhole
      have hlong : ¬(len = 4 ∧ s.pc.getLsbD 1 = true) := by
        rw [← h.unaligned_iff hd, hwhole]
        exact Bool.false_ne_true
      -- The upper half of the decoder's input is stale, but a short instruction has none.
      have hlow : (parcel m s.pc).extractLsb' 0 2 ≠ 3#2 := by
        intro hlow
        generalize parcel m s.pc = x at hd hlow
        cases hd with
        | long i => exact hlong ⟨rfl, h1⟩
        | short hi hc =>
          rename_i comp
          have hop : (hi ++ comp.encode).extractLsb' 0 2 = comp.slots.op := field_op hi comp
          exact comp.op_ne (hop.symm.trans hlow)
      refine hd.low hlow ?_
      rw [hparcel]
      exact BitVec.extractLsb'_append_eq_right.trans BitVec.extractLsb'_append_eq_right.symm

/-- **The clock of decoding.** -/
theorem Decoding.step_ready (h : Decoding m s c) (hreset : c.reset = true)
    (hopen : Hart.Open s.hart) (hd : Decodes (parcel m s.pc) i len)
    (hwhole : (s.currentUnalignedLong c && !s.fetchSecondHalf) = false) :
    Ready (s.step c) i (BitVec.ofNat 24 len) := by
  have hf : s.Fetches := Or.inr h.state
  obtain ⟨hdec, hlen⟩ := (h.decodes hd hwhole).decompress
  have hcontrol : s.clockControl c = s.clockWaitInstr c := by
    rw [clockControl, hreset, h.state]
    rfl
  have hwait : s.clockWaitInstr c = _ := if_neg (by rw [h.ready]; exact Bool.false_ne_true)
  have hdec' : s.decompressed c = i.encode := hdec
  have hget (r : Reg) : s.registerFile (s.banked r) = (s.step c).hart.get r := by
    rw [hf.step_hart hreset hopen, Hart.get, banked_eq]
    split_ifs with h0
    · rw [h0]
      exact h.zero _
    · rfl
  have hinstr := congrArg instr (hcontrol.trans hwait)
  have hstate := congrArg FemtoRV32.state (hcontrol.trans hwait)
  have hlong := congrArg longInstr (hcontrol.trans hwait)
  have hrs1 := congrArg rs1 (hcontrol.trans hwait)
  have hrs2 := congrArg rs2 (hcontrol.trans hwait)
  simp only [hwhole, hdec'] at hinstr hstate hlong hrs1 hrs2
  have hslots : i.encode.extractLsb' 2 30 = i.slots :=
    (BitVec.extractLsb'_append_eq_of_le (by decide)).trans BitVec.extractLsb'_eq_self
  have hins : (s.step c).ins = i.slots ++ 0#2 := congrArg (· ++ 0#2) (hinstr.trans hslots)
  have hfield (lo : ℕ) (hlo : 2 ≤ lo) :
      i.encode.extractLsb' lo 5 = (i.slots ++ 0#2).extractLsb' lo 5 := by
    rw [Instr.encode, BitVec.extractLsb'_append_eq_of_le hlo,
      BitVec.extractLsb'_append_eq_of_le hlo]
  constructor
  · exact hstate
  · exact hinstr.trans hslots
  · rw [hlen]
    exact congrArg (fun b : Bool => if b then 4#24 else 2#24) hlong.symm
  · rw [hins]
    exact (hrs1.trans (hget _)).trans (congrArg _ (hfield 15 (by decide)))
  · rw [hins]
    exact (hrs2.trans (hget _)).trans (congrArg _ (hfield 20 (by decide)))
  · intro b
    have hzero := h.zero b
    rw [← hf.step_hart hreset hopen] at hzero
    exact hzero
  · exact hf.step_calm hreset
  · exact hf.step_idle h.idle

/-! ### From one instruction to the next -/

/-- The core is about to execute `i`, and what it has cached is right. -/
structure Prepared (m : BitVec 24 → BitVec 8) (T : Set (BitVec 22)) (s : FemtoRV32) (i : Instr)
    (len : ℕ) : Prop extends Ready s i (BitVec.ofNat 24 len) where
  coherent : s.cachedAddr ∈ T → s.cachedData = word m s.cachedAddr
  whole : s.fetchSecondHalf = false

/-- What the core has cached, and what is left to fetch. -/
theorem Decoding.step_cache (h : Decoding m s c) (hreset : c.reset = true)
    (hcoherent : s.cachedAddr ∈ T → s.cachedData = word m s.cachedAddr) :
    ((s.step c).cachedAddr ∈ T → (s.step c).cachedData = word m (s.step c).cachedAddr) ∧
      (s.step c).fetchSecondHalf = (s.currentUnalignedLong c && !s.fetchSecondHalf) ∧
      (s.step c).state = (if s.currentUnalignedLong c && !s.fetchSecondHalf then .fetchInstr
        else .execute) ∧
      (s.fetchSecondHalf = false → (s.step c).cachedAddr = s.pc.extractLsb' 2 22 ∧
        (s.step c).cachedData = word m (s.pc.extractLsb' 2 22)) := by
  have hf : s.Fetches := Or.inr h.state
  have hcontrol : s.clockControl c = s.clockWaitInstr c := by
    rw [clockControl, hreset, h.state]
    rfl
  have hwait : s.clockWaitInstr c = _ := if_neg (by rw [h.ready]; exact Bool.false_ne_true)
  have haddr := congrArg cachedAddr (hcontrol.trans hwait)
  have hdata := congrArg cachedData (hcontrol.trans hwait)
  have hsecond := congrArg fetchSecondHalf (hcontrol.trans hwait)
  have hstate := congrArg FemtoRV32.state (hcontrol.trans hwait)
  have haddr' : (s.step c).cachedAddr = _ := haddr
  have hdata' : (s.step c).cachedData = _ := hdata
  have hmem : s.memAddr.extractLsb' 2 22 =
      (if s.fetchSecondHalf then s.pc + 4#24 else s.pc).extractLsb' 2 22 := by
    rw [hf.memAddr_eq, BitVec.extractLsb'_append_eq_of_le (Nat.le_refl 2)]
    exact BitVec.extractLsb'_eq_self
  have hfirst := h.first
  rw [cachedMem] at hfirst
  refine ⟨?_, hsecond, hstate, ?_⟩
  -- A word that comes from the bus is cached under the address that it was fetched from.
  · rw [haddr', hdata']
    cases h2 : s.fetchSecondHalf with
    | true =>
      rw [h2, if_pos rfl] at hmem
      simp only [Bool.or_true, if_true]
      rw [hmem]
      exact fun _ => h.second h2
    | false =>
      rw [h2, if_neg Bool.false_ne_true] at hmem
      cases hhit : s.currentCacheHit with
      | true => exact hcoherent
      | false =>
        rw [hhit, if_neg Bool.false_ne_true] at hfirst
        simp only [Bool.not_false, Bool.true_or, if_true]
        rw [hmem]
        exact fun _ => hfirst
  · intro h2
    rw [haddr', hdata', h2]
    rw [h2, if_neg Bool.false_ne_true] at hmem
    cases hhit : s.currentCacheHit with
    | true =>
      rw [hhit, if_pos rfl] at hfirst
      rw [currentCacheHit, beq_iff_eq] at hhit
      exact ⟨hhit, hfirst⟩
    | false =>
      rw [hhit, if_neg Bool.false_ne_true] at hfirst
      exact ⟨hmem, hfirst⟩

/-- A clock on which nothing is decoded. -/
theorem Fetches.step_still (hf : s.Fetches) (hreset : c.reset = true)
    (hstill : s.state = .fetchInstr ∨ c.memRbusy = true) :
    (s.step c).state = .waitInstr ∧ (s.step c).cachedAddr = s.cachedAddr ∧
      (s.step c).cachedData = s.cachedData ∧ (s.step c).fetchSecondHalf = s.fetchSecondHalf := by
  have hcontrol : s.clockControl c = { s with state := .waitInstr } := by
    cases hs : s.state with
    | fetchInstr =>
      rw [clockControl, hreset, hs]
      rfl
    | waitInstr =>
      have hbusy : c.memRbusy = true := by
        rcases hstill with h | h
        · rw [hs] at h
          exact absurd h (by decide)
        · exact h
      rw [clockControl, hreset, hs]
      show s.clockWaitInstr c = _
      rw [clockWaitInstr, hbusy, if_pos rfl, ← hs]
    | _ => rcases hf with h | h <;> rw [hs] at h <;> exact absurd h (by decide)
  have hstate := congrArg FemtoRV32.state hcontrol
  have haddr := congrArg cachedAddr hcontrol
  have hdata := congrArg cachedData hcontrol
  have hsecond := congrArg fetchSecondHalf hcontrol
  exact ⟨hstate, haddr, hdata, hsecond⟩

theorem after_add (s : FemtoRV32) (is : ℕ → CpuInput) (t u : ℕ) :
    s.after is (t + u) = (s.after is t).after (fun v => is (t + v)) u := by
  induction u with
  | zero => rfl
  | succ u ih =>
    show (s.after is (t + u)).step (is (t + u)) = _
    rw [ih]
    rfl

/-- The core waits for the bus, before it decodes. -/
structure Still (s s' : FemtoRV32) : Prop where
  state : s'.state = .waitInstr
  hart : s'.hart = s.hart
  cachedAddr : s'.cachedAddr = s.cachedAddr
  cachedData : s'.cachedData = s.cachedData
  second : s'.fetchSecondHalf = s.fetchSecondHalf
  idle : s'.quotientMsk = 0#32

variable {is : ℕ → CpuInput}

/-- It stays in this state while the bus is busy. -/
theorem Still.run {s₀ : FemtoRV32} (hs : Still s₀ s) (hreset : ∀ t, (is t).reset = true)
    (hopen : Hart.Open s.hart) (n : ℕ) (hbusy : ∀ j < n, (is j).memRbusy = true) :
    Still s₀ (s.after is n) ∧ ∀ j ≤ n, (s.after is j).state = .waitInstr := by
  induction n with
  | zero =>
    refine ⟨hs, fun j hj => ?_⟩
    obtain rfl := Nat.le_zero.mp hj
    exact hs.state
  | succ n ih =>
    obtain ⟨hw, hall⟩ := ih fun j hj => hbusy j (by omega)
    have hf : (s.after is n).Fetches := Or.inr hw.state
    have hopen' : Hart.Open (s.after is n).hart := by
      rw [hw.hart, ← hs.hart]
      exact hopen
    obtain ⟨hstate, haddr, hdata, hsecond⟩ :=
      hf.step_still (hreset n) (Or.inr (hbusy n (by omega)))
    refine ⟨⟨hstate, (hf.step_hart (hreset n) hopen').trans hw.hart, haddr.trans hw.cachedAddr,
      hdata.trans hw.cachedData, hsecond.trans hw.second, hf.step_idle hw.idle⟩, fun j hj => ?_⟩
    rcases Nat.lt_or_eq_of_le hj with hlt | rfl
    · exact hall j (by omega)
    · exact hstate

/-- The bus, in a run from `s`: a word of `T` that is fetched is that of `m`. -/
structure Bus (m : BitVec 24 → BitVec 8) (T : Set (BitVec 22)) (s : FemtoRV32)
    (is : ℕ → CpuInput) : Prop where
  reset : ∀ t, (is t).reset = true
  fetch : ∀ t, (s.after is t).state = .fetchInstr → (s.after is t).memAddr.extractLsb' 2 22 ∈ T →
    ∃ n, (∀ j < n, (is (t + 1 + j)).memRbusy = true) ∧ (is (t + 1 + n)).memRbusy = false ∧
      (is (t + 1 + n)).memRdata = word m ((s.after is t).memAddr.extractLsb' 2 22)
  fair : ∀ t, ∃ n, ((is (t + n)).memRbusy || (is (t + n)).memWbusy) = false
  quiet : ∀ t, (s.after is t).Waits → (s.after is t).isDivide = true →
    ((is t).memRbusy || (is t).memWbusy) = false

theorem Bus.shift (h : Bus m T s is) (t : ℕ) :
    Bus m T (s.after is t) fun u => is (t + u) := by
  constructor
  · exact fun u => h.reset (t + u)
  · intro u hs hmem
    rw [← after_add] at hs hmem ⊢
    obtain ⟨n, hbusy, hready, hdata⟩ := h.fetch (t + u) hs hmem
    have hassoc (j : ℕ) : t + (u + 1 + j) = t + u + 1 + j := by omega
    refine ⟨n, fun j hj => ?_, ?_, ?_⟩
    · rw [hassoc]
      exact hbusy j hj
    · rw [hassoc]
      exact hready
    · rw [hassoc]
      exact hdata
  · intro u
    obtain ⟨n, hn⟩ := h.fair (t + u)
    refine ⟨n, ?_⟩
    rw [← Nat.add_assoc]
    exact hn
  · intro u hw hd
    rw [← after_add] at hw hd
    exact h.quiet (t + u) hw hd

/-- The first clock on which the bus is not busy. -/
theorem first_ready {p : ℕ → Bool} (h : ∃ n, p n = false) :
    ∃ n, (∀ j < n, p j = true) ∧ p n = false := by
  refine ⟨Nat.find h, fun j hj => ?_, Nat.find_spec h⟩
  exact Bool.eq_true_of_not_eq_false (Nat.find_min h hj)

/-! ### Fetching -/

theorem Hart.Open.congr {h h' : Hart} (ho : Hart.Open h) (heq : h' = h) : Hart.Open h' := heq ▸ ho

/-- The word at the memory address of a fetch. -/
theorem Fetches.memAddr_word (hf : s.Fetches) : s.memAddr.extractLsb' 2 22 =
    (if s.fetchSecondHalf then s.pc + 4#24 else s.pc).extractLsb' 2 22 := by
  rw [hf.memAddr_eq, BitVec.extractLsb'_append_eq_of_le (Nat.le_refl 2)]
  exact BitVec.extractLsb'_eq_self

/-- The word of a fetch is one of the program. -/
theorem Fetching.reaches (h : Fetching m T s) (hd : Decodes (parcel m s.pc) i len)
    (hreach : Reaches T s.hart len) : s.memAddr.extractLsb' 2 22 ∈ T := by
  rw [h.fetches.memAddr_word]
  cases h2 : s.fetchSecondHalf with
  | false => exact hreach.1
  | true =>
    obtain ⟨hhit, hlong, h1⟩ := h.second h2
    rw [currentCacheHit, beq_iff_eq] at hhit
    have hdata := h.coherent (by rw [hhit]; exact hreach.1)
    rw [hdata, hhit] at hlong
    exact hreach.2 ((hd.second_iff h1).mp hlong) h1

/-- The bus answers a fetch. -/
theorem Fetching.decoding (h : Fetching m T s) (hbus : Bus m T s is)
    (hopen : Hart.Open s.hart) (hd : Decodes (parcel m s.pc) i len)
    (hreach : Reaches T s.hart len) :
    ∃ n, Decoding m (s.after is n) (is n) ∧ (s.after is n).hart = s.hart ∧
      (s.after is n).fetchSecondHalf = s.fetchSecondHalf ∧
      ((s.after is n).cachedAddr ∈ T →
        (s.after is n).cachedData = word m (s.after is n).cachedAddr) ∧
      (s.state = .waitInstr → (s.after is n).currentUnalignedLong (is n) = false) ∧
      ∀ j ≤ n, (s.after is j).Fetches := by
  have hhit (hc : s.currentCacheHit = true) : s.cachedData = word m (s.pc.extractLsb' 2 22) := by
    rw [currentCacheHit, beq_iff_eq] at hc
    have hdata := h.coherent (by rw [hc]; exact hreach.1)
    rwa [hc] at hdata
  have hcached {s' : FemtoRV32} (hs : Still s s') {c : CpuInput} :
      s'.cachedMem c = if s.currentCacheHit then s.cachedData else c.memRdata := by
    have hpc : s'.pc = s.pc := congrArg Hart.pc hs.hart
    rw [cachedMem, currentCacheHit, currentCacheHit, hs.cachedAddr, hs.cachedData, hpc]
  rcases h.fetches with hstate | hstate
  -- The word is fetched, and the bus answers when it is not busy any more.
  · obtain ⟨n, hbusy, hready, hdata⟩ := hbus.fetch 0 hstate (h.reaches hd hreach)
    have hfirst := h.fetches.step_still (hbus.reset 0) (Or.inl hstate)
    have hhart := h.fetches.step_hart (hbus.reset 0) hopen
    have hstill : Still s (s.step (is 0)) := ⟨hfirst.1, hhart, hfirst.2.1, hfirst.2.2.1,
      hfirst.2.2.2, h.fetches.step_idle h.idle⟩
    have hassoc (j : ℕ) : 0 + 1 + j = 1 + j := by omega
    obtain ⟨hrun, hall⟩ : Still s ((s.step (is 0)).after (fun u => is (1 + u)) n) ∧
        ∀ j ≤ n, ((s.step (is 0)).after (fun u => is (1 + u)) j).state = .waitInstr := by
      refine hstill.run (fun t => hbus.reset (1 + t)) (hopen.congr hhart) n fun j hj => ?_
      rw [← hassoc]
      exact hbusy j hj
    have hafter (j : ℕ) : (s.step (is 0)).after (fun u => is (1 + u)) j = s.after is (1 + j) :=
      (after_add s is 1 j).symm
    rw [hafter] at hrun
    rw [hassoc] at hready hdata
    have hpc : (s.after is (1 + n)).pc = s.pc := congrArg Hart.pc hrun.hart
    have hmem : (s.after is 0).memAddr.extractLsb' 2 22 = _ := h.fetches.memAddr_word
    rw [hmem] at hdata
    refine ⟨1 + n, ⟨hrun.state, hready, ?_, ?_, ?_, hrun.idle⟩, hrun.hart, hrun.second, ?_, ?_, ?_⟩
    · rw [hcached hrun, hpc]
      cases hc : s.currentCacheHit with
      | true => rw [if_pos rfl, hhit hc]
      | false =>
        have h2 : s.fetchSecondHalf = false := by
          by_contra h2
          rw [Bool.not_eq_false] at h2
          rw [(h.second h2).1] at hc
          exact absurd hc (by decide)
        rw [h2, if_neg Bool.false_ne_true] at hdata
        rw [if_neg Bool.false_ne_true, hdata]
    · intro h2
      rw [hrun.second] at h2
      rw [h2, if_pos rfl] at hdata
      rw [hdata, hpc]
    · rw [hrun.hart]
      exact h.zero
    · rw [hrun.cachedAddr, hrun.cachedData]
      exact h.coherent
    · intro hw
      rw [hstate] at hw
      exact absurd hw (by decide)
    · intro j hj
      cases j with
      | zero => exact h.fetches
      | succ j =>
        have hw := hall j (by omega)
        rw [hafter, Nat.add_comm] at hw
        exact Or.inr hw
  -- The fetch was skipped, as the word is in the cache: what the bus answers is not used.
  · obtain ⟨hc, h2, hshort⟩ := h.skip hstate
    have hstill : Still s s := ⟨hstate, rfl, rfl, rfl, rfl, h.idle⟩
    obtain ⟨n, hbusy, hready⟩ := first_ready (p := fun n => (is n).memRbusy) (by
      obtain ⟨n, hn⟩ := hbus.fair 0
      rw [Nat.zero_add, Bool.or_eq_false_iff] at hn
      exact ⟨n, hn.1⟩)
    obtain ⟨hrun, hall⟩ := hstill.run hbus.reset hopen n hbusy
    have hpc : (s.after is n).pc = s.pc := congrArg Hart.pc hrun.hart
    have hmem : (s.after is n).cachedMem (is n) = s.cachedData := by
      rw [hcached hrun, hc, if_pos rfl]
    refine ⟨n, ⟨hrun.state, hready, ?_, ?_, ?_, hrun.idle⟩, hrun.hart, hrun.second, ?_, ?_, ?_⟩
    · rw [hmem, hpc, hhit hc]
    · intro h2'
      rw [hrun.second, h2] at h2'
      exact absurd h2' Bool.false_ne_true
    · rw [hrun.hart]
      exact h.zero
    · rw [hrun.cachedAddr, hrun.cachedData]
      exact h.coherent
    · intro _
      rw [currentUnalignedLong, hmem, hpc]
      by_contra hne
      rw [Bool.not_eq_false, Bool.and_eq_true, beq_iff_eq] at hne
      exact hshort hne
    · exact fun j hj => Or.inr (hall j hj)

/-- Behind one fetch, the instruction is decoded, or its second word is fetched. -/
theorem Fetching.fetch (h : Fetching m T s) (hbus : Bus m T s is) (hopen : Hart.Open s.hart)
    (hd : Decodes (parcel m s.pc) i len) (hreach : Reaches T s.hart len) :
    ∃ n, (s.after is (n + 1)).hart = s.hart ∧ (∀ j ≤ n, (s.after is j).Fetches) ∧
      (Prepared m T (s.after is (n + 1)) i len ∨
        s.fetchSecondHalf = false ∧ Fetching m T (s.after is (n + 1)) ∧
          (s.after is (n + 1)).fetchSecondHalf = true) := by
  obtain ⟨n, hdec, hhart, hsecond, hcoherent, hskip, hall⟩ := h.decoding hbus hopen hd hreach
  have hf : (s.after is n).Fetches := Or.inr hdec.state
  have hopen' : Hart.Open (s.after is n).hart := hopen.congr hhart
  have hpc : (s.after is n).pc = s.pc := congrArg Hart.pc hhart
  have hd' : Decodes (parcel m (s.after is n).pc) i len := by
    rw [hpc]
    exact hd
  have hnext : (s.after is (n + 1)).hart = s.hart :=
    (hf.step_hart (hbus.reset n) hopen').trans hhart
  obtain ⟨hcache, hwhole, hstate, hword⟩ := hdec.step_cache (hbus.reset n) hcoherent
  refine ⟨n, hnext, hall, ?_⟩
  cases hu : (s.after is n).currentUnalignedLong (is n) && !(s.after is n).fetchSecondHalf with
  | false =>
    have hready := hdec.step_ready (hbus.reset n) hopen' hd' hu
    exact Or.inl ⟨hready, hcache, hwhole.trans hu⟩
  | true =>
    -- The first half of a long instruction is in the word that is cached now.
    rw [hu] at hwhole hstate
    rw [Bool.and_eq_true, Bool.not_eq_true'] at hu
    obtain ⟨haddr, hdata⟩ := hword hu.2
    obtain ⟨hlen, h1⟩ := (hdec.unaligned_iff hd').mp hu.1
    have hpc' : (s.after is (n + 1)).pc = (s.after is n).pc := by
      rw [hpc]
      exact congrArg Hart.pc hnext
    refine Or.inr ⟨hsecond.symm.trans hu.2, ?_, hwhole⟩
    constructor
    · exact Or.inl hstate
    · intro hw
      rw [show (s.after is (n + 1)).state = _ from hstate] at hw
      exact absurd hw (by decide)
    · intro _
      refine ⟨?_, ?_, ?_⟩
      · rw [currentCacheHit, hpc', beq_iff_eq]
        exact haddr
      · rw [show (s.after is (n + 1)).cachedData = _ from hdata]
        exact (hd'.second_iff h1).mpr hlen
      · rw [hpc']
        exact h1
    · exact hcache
    · rw [hnext]
      exact h.zero
    · exact hf.step_idle hdec.idle

/-- **The next instruction** is fetched and decoded, in one word or in two. -/
theorem Fetching.prepares (h : Fetching m T s) (hbus : Bus m T s is) (hopen : Hart.Open s.hart)
    (hd : Decodes (parcel m s.pc) i len) (hreach : Reaches T s.hart len) :
    ∃ n, (s.after is n).hart = s.hart ∧ (∀ j < n, (s.after is j).Fetches) ∧
      Prepared m T (s.after is n) i len := by
  obtain ⟨n, hhart, hall, hp | ⟨-, hf, h2⟩⟩ := h.fetch hbus hopen hd hreach
  · exact ⟨n + 1, hhart, fun j hj => hall j (by omega), hp⟩
  · have hpc : (s.after is (n + 1)).pc = s.pc := congrArg Hart.pc hhart
    have hd' : Decodes (parcel m (s.after is (n + 1)).pc) i len := by
      rw [hpc]
      exact hd
    have hreach' : Reaches T (s.after is (n + 1)).hart len := by
      rw [hhart]
      exact hreach
    obtain ⟨k, hhart', hall', hp | ⟨h2', -⟩⟩ :=
      hf.fetch (hbus.shift (n + 1)) (hopen.congr hhart) hd' hreach'
    · rw [← after_add] at hhart' hp
      refine ⟨n + 1 + (k + 1), hhart'.trans hhart, fun j hj => ?_, hp⟩
      by_cases hjn : j ≤ n
      · exact hall j hjn
      · have hw := hall' (j - (n + 1)) (by omega)
        rw [← after_add] at hw
        have hj' : n + 1 + (j - (n + 1)) = j := by omega
        rwa [hj'] at hw
    · rw [h2] at h2'
      exact absurd h2' (by decide)

end FemtoRV32

end Filestick
