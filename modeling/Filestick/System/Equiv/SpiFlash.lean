import Filestick.System.SpiFlash
import Mathlib.Data.BitVec

/-!
# Flash reads and interrupts

A load from the data register waits while the engine shifts, and starts a transfer of its own when
the engine is idle.  So what an exchange does depends on whether the load comes before the end of
the transfer that its store has started.

* `runOp_exchange_inTime`, `runOp_exchange_late`: the two cases.
* `flashMemcpy_schedule_iff`: `flash_memcpy` performs the transfers and stores of its run without
  interrupts exactly when every load comes in time.
-/

namespace Filestick.SpiFlash

variable {χ : Type} (dev : Slave χ)

/-! ### The engine between two accesses -/

/-- No transfer is going on. -/
structure Quiet (s : Spi) : Prop where
  state : s.state = .idle
  wrhold : s.wrhold = false
  rdhold : s.rdhold = false

/-- A transfer is going on, with `n` bits to come after this one. -/
structure Shifting (s : Spi) (n : ℕ) : Prop where
  state : s.state = .shifting
  bitcount : s.bitcount.toNat = n
  wrhold : s.wrhold = false
  rdhold : s.rdhold = false

/-- The system with a load that waits. -/
def held (y : SpiSystem χ) : SpiSystem χ := { y with spi := { y.spi with rdhold := true } }

/-- A transfer that is started or goes on leaves the control registers alone. -/
structure SameRegs (y y' : SpiSystem χ) : Prop where
  regBitcount : y'.spi.regBitcount = y.spi.regBitcount
  transfers : y'.transfers = y.transfers

theorem SameRegs.trans {y y' y'' : SpiSystem χ} (h : SameRegs y y') (h' : SameRegs y' y'') :
    SameRegs y y'' :=
  ⟨h'.regBitcount.trans h.regBitcount, h'.transfers.trans h.transfers⟩

section

variable {dev} {y : SpiSystem χ} {n : ℕ}

theorem clockRegs_eq {s : Spi} {b : SpiBus} (hb : b.we = 0#4) : s.clockRegs b = s := by
  simp [Spi.clockRegs, SpiBus.wrCtrlreg, hb]

theorem clock_quiet (h : Quiet y.spi) : y.clock dev noBus = y := by
  have hneg : y.negedge dev noBus.miso2 = y := by
    rw [SpiSystem.negedge, h.state, if_neg (by decide)]
  have hstate : y.spi.clockState noBus = y.spi := by
    simp [Spi.clockState, h.state, Spi.trxRq, h.wrhold, SpiBus.rdDatareg, SpiBus.wrDatareg,
      SpiBus.wrCtrlreg, noBus]
  have hpos : y.spi.posedge noBus = y.spi := by
    rw [Spi.posedge, hstate, clockRegs_eq rfl]
  have hstart : y.spi.starts noBus = false := by
    simp [Spi.starts, Spi.trxRq, h.wrhold, SpiBus.rdDatareg, SpiBus.wrDatareg, noBus]
  simp only [SpiSystem.clock, hneg, hpos, hstart]
  simp

theorem idleClocks_quiet (h : Quiet y.spi) (g : ℕ) : idleClocks dev g y = y := by
  induction g with
  | zero => rfl
  | succ g ih => rw [idleClocks, clock_quiet h, ih]

theorem idleClocks_add (a b : ℕ) (y : SpiSystem χ) :
    idleClocks dev (a + b) y = idleClocks dev b (idleClocks dev a y) := by
  induction a generalizing y with
  | zero => rw [Nat.zero_add]; rfl
  | succ a ih => rw [Nat.succ_add, idleClocks, ih, idleClocks]

/-- The engine after a falling edge, with or without a load that waits. -/
def sampled (s : Spi) (x : BitVec 32) (r : Bool) : Spi := { s with shiftIn := x, rdhold := r }

/-- What a falling edge leaves alone. -/
theorem negedge_spec (dev : Slave χ) (y : SpiSystem χ) (m : Bool) (hr : y.spi.rdhold = false) :
    ∃ x d, y.negedge dev m = ⟨sampled y.spi x false, d, y.transfers⟩ ∧
      (held y).negedge dev m = ⟨sampled y.spi x true, d, y.transfers⟩ := by
  unfold SpiSystem.negedge held sampled
  dsimp only
  rw [← hr]
  split_ifs
  · exact ⟨_, _, rfl, rfl⟩
  · exact ⟨_, _, rfl, rfl⟩
  · exact ⟨y.spi.shiftIn, y.slave, rfl, rfl⟩

/-- A rising edge in the middle of a transfer. -/
theorem posedge_shifting {s : Spi} {b : SpiBus} (hs : s.state = .shifting) (h0 : s.bitcount ≠ 0#5)
    (hb : b.we = 0#4) (x : BitVec 32) (r : Bool) :
    (sampled s x r).posedge b = sampled { s with
      shiftOut := s.shiftOut <<< 1
      bitcount := s.bitcount - 1#5 } x (if b.rdDatareg then true else r) := by
  simp [Spi.posedge, clockRegs_eq hb, Spi.clockState, hs, h0, SpiBus.wrDatareg,
    SpiBus.wrCtrlreg, hb, sampled]

/-- The rising edge that ends a transfer. -/
theorem posedge_last {s : Spi} {b : SpiBus} (hs : s.state = .shifting) (h0 : s.bitcount = 0#5)
    (hb : b.we = 0#4) (x : BitVec 32) (r : Bool) :
    (sampled s x r).posedge b = sampled { s with
      regRead := x
      state := .idle
      ssActive := s.ssReqActive } x false := by
  simp [Spi.posedge, clockRegs_eq hb, Spi.clockState, hs, h0, SpiBus.wrDatareg,
    SpiBus.wrCtrlreg, hb, sampled]

theorem starts_sampled {s : Spi} (hs : s.state = .shifting) (x : BitVec 32) (r : Bool)
    (b : SpiBus) :
    (sampled s x r).starts b = false := by
  simp [Spi.starts, sampled, hs]

@[simp] theorem ss0_sampled (s : Spi) (x : BitVec 32) (r : Bool) :
    (sampled s x r).ss0 = s.ss0 := rfl

/-- A clock in the middle of a transfer; a load is noted. -/
theorem clock_shifting (dev : Slave χ) (h : Shifting y.spi (n + 1)) :
    Shifting (y.clock dev noBus).spi n ∧ SameRegs y (y.clock dev noBus) ∧
      y.clock dev loadBus = held (y.clock dev noBus) ∧
      (held y).clock dev noBus = held (y.clock dev noBus) := by
  obtain ⟨x, d, hneg, hheld⟩ := negedge_spec dev y false h.rdhold
  have h0 : y.spi.bitcount ≠ 0#5 := by
    intro h0
    have := h.bitcount
    rw [h0] at this
    simp at this
  have hbit : (y.spi.bitcount - 1#5).toNat = n := by
    have := h.bitcount
    bv_omega
  set s' : Spi := { y.spi with
    shiftOut := y.spi.shiftOut <<< 1
    bitcount := y.spi.bitcount - 1#5 } with hs'
  have hclock : ∀ (b : SpiBus) (r : Bool), b.we = 0#4 →
      (sampled y.spi x r).posedge b = sampled s' x (if b.rdDatareg then true else r) :=
    fun b r hb => posedge_shifting h.state h0 hb x r
  have hss : s'.ss0 = y.spi.ss0 := rfl
  have hno : y.clock dev noBus = ⟨sampled s' x false, d, y.transfers⟩ := by
    have hm : y.negedge dev noBus.miso2 = _ := hneg
    simp only [SpiSystem.clock, hm, hclock noBus _ rfl, starts_sampled h.state, ss0_sampled, hss]
    simp [SpiBus.rdDatareg, noBus]
  have hload : y.clock dev loadBus = ⟨sampled s' x true, d, y.transfers⟩ := by
    have hm : y.negedge dev loadBus.miso2 = _ := hneg
    simp only [SpiSystem.clock, hm, hclock loadBus _ rfl, starts_sampled h.state, ss0_sampled, hss]
    simp [SpiBus.rdDatareg, loadBus]
  have hwait : (held y).clock dev noBus = ⟨sampled s' x true, d, y.transfers⟩ := by
    have hm : (held y).negedge dev noBus.miso2 = _ := hheld
    simp only [SpiSystem.clock, hm, hclock noBus _ rfl, starts_sampled h.state, ss0_sampled, hss]
    simp [SpiBus.rdDatareg, noBus]
  rw [hno, hload, hwait]
  exact ⟨⟨h.state, hbit, h.wrhold, rfl⟩, ⟨rfl, rfl⟩, rfl, rfl⟩

/-- The last clock of a transfer; a load in it finds the transfer done. -/
theorem clock_last (dev : Slave χ) (h : Shifting y.spi 0) :
    Quiet (y.clock dev noBus).spi ∧ SameRegs y (y.clock dev noBus) ∧
      y.clock dev loadBus = y.clock dev noBus ∧
      (held y).clock dev noBus = y.clock dev noBus := by
  obtain ⟨x, d, hneg, hheld⟩ := negedge_spec dev y false h.rdhold
  have h0 : y.spi.bitcount = 0#5 := BitVec.eq_of_toNat_eq h.bitcount
  set s' : Spi := { y.spi with
    regRead := x
    state := .idle
    ssActive := y.spi.ssReqActive } with hs'
  have hclock : ∀ (b : SpiBus) (r : Bool), b.we = 0#4 →
      (sampled y.spi x r).posedge b = sampled s' x false :=
    fun b r hb => posedge_last h.state h0 hb x r
  set d' := if y.spi.ss0 && !s'.ss0 then dev.deselect d else d with hd'
  have hno : y.clock dev noBus = ⟨sampled s' x false, d', y.transfers⟩ := by
    have hm : y.negedge dev noBus.miso2 = _ := hneg
    simp only [SpiSystem.clock, hm, hclock noBus _ rfl, starts_sampled h.state, ss0_sampled, ← hd']
    rfl
  have hload : y.clock dev loadBus = ⟨sampled s' x false, d', y.transfers⟩ := by
    have hm : y.negedge dev loadBus.miso2 = _ := hneg
    simp only [SpiSystem.clock, hm, hclock loadBus _ rfl, starts_sampled h.state,
      ss0_sampled, ← hd']
    rfl
  have hwait : (held y).clock dev noBus = ⟨sampled s' x false, d', y.transfers⟩ := by
    have hm : (held y).negedge dev noBus.miso2 = _ := hheld
    simp only [SpiSystem.clock, hm, hclock noBus _ rfl, starts_sampled h.state, ss0_sampled, ← hd']
    rfl
  rw [hno, hload, hwait]
  exact ⟨⟨rfl, h.wrhold, rfl⟩, ⟨rfl, rfl⟩, rfl, rfl⟩

/-! ### Loads -/

/-- The rest of a transfer. -/
theorem idleClocks_shifting (dev : Slave χ) (h : Shifting y.spi n) :
    Quiet (idleClocks dev (n + 1) y).spi ∧ SameRegs y (idleClocks dev (n + 1) y) := by
  induction n generalizing y with
  | zero =>
    obtain ⟨hq, hs, -, -⟩ := clock_last dev h
    exact ⟨hq, hs⟩
  | succ n ih =>
    obtain ⟨hsh, hs, -, -⟩ := clock_shifting dev h
    obtain ⟨hq, hs'⟩ := ih hsh
    exact ⟨hq, hs.trans hs'⟩

theorem rbusy_quiet (h : Quiet y.spi) : y.spi.rbusy = false := by
  rw [Spi.rbusy, h.rdhold, Bool.false_and]

/-- A load that waits gets the end of the transfer. -/
theorem waitWhile_held (h : Shifting y.spi n) {fuel : ℕ} (hf : n + 2 ≤ fuel) :
    waitWhile dev Spi.rbusy fuel (held y) = some (idleClocks dev (n + 1) y) := by
  have hbusy : (held y).spi.rbusy = true := by
    simp [held, Spi.rbusy, h.state]
  obtain ⟨fuel, rfl⟩ : ∃ f, fuel = f + 1 := ⟨fuel - 1, by omega⟩
  rw [waitWhile, if_pos hbusy]
  induction n generalizing y fuel with
  | zero =>
    obtain ⟨hq, -, -, hw⟩ := clock_last dev h
    obtain ⟨fuel, rfl⟩ : ∃ f, fuel = f + 1 := ⟨fuel - 1, by omega⟩
    rw [hw, waitWhile, rbusy_quiet hq]
    rfl
  | succ n ih =>
    obtain ⟨hsh, -, -, hw⟩ := clock_shifting dev h
    obtain ⟨fuel, rfl⟩ : ∃ f, fuel = f + 1 := ⟨fuel - 1, by omega⟩
    have hbusy' : (held (y.clock dev noBus)).spi.rbusy = true := by
      simp [held, Spi.rbusy, hsh.state]
    rw [hw, waitWhile, if_pos hbusy', ih hsh hbusy' fuel (by omega)]
    rfl

/-- **A load in time**: wherever in the transfer it comes, it gets the end of it. -/
theorem load_inTime (dev : Slave χ) (h : Shifting y.spi n) (hn : n < 32) {g : ℕ} (hg : g ≤ n) :
    waitWhile dev Spi.rbusy 34 ((idleClocks dev g y).clock dev loadBus)
      = some (idleClocks dev (n + 1) y) := by
  induction g generalizing y n with
  | zero =>
    cases n with
    | zero =>
      obtain ⟨hq, -, hl, -⟩ := clock_last dev h
      rw [idleClocks, hl, waitWhile, rbusy_quiet hq]
      rfl
    | succ n =>
      obtain ⟨hsh, -, hl, -⟩ := clock_shifting dev h
      rw [idleClocks, hl, waitWhile_held hsh (by omega)]
      rfl
  | succ g ih =>
    obtain ⟨n, rfl⟩ : ∃ m, n = m + 1 := ⟨n - 1, by omega⟩
    obtain ⟨hsh, -, -, -⟩ := clock_shifting dev h
    rw [idleClocks, ih hsh (by omega) (by omega)]
    rfl

/-- An access to the data register of an idle engine starts a transfer. -/
theorem clock_start (dev : Slave χ) (h : Quiet y.spi) (bus : SpiBus) (haddr : bus.addr = 0#2)
    (hrq : y.spi.trxRq bus = true) :
    (y.clock dev bus).spi = { y.spi.posedge bus with
        shiftOut := y.spi.outgoing bus, state := .shifting, bitcount := y.spi.regBitcount,
        ssActive := true, ssReqActive := true, rdhold := bus.rdDatareg, wrhold := false } ∧
      (y.clock dev bus).spi.regBitcount = y.spi.regBitcount ∧
      (y.clock dev bus).transfers
        = y.transfers ++ [⟨y.spi.outgoing bus, y.spi.regBitcount, y.spi.regSs⟩] := by
  have hneg : y.negedge dev bus.miso2 = y := by
    rw [SpiSystem.negedge, h.state, if_neg (by decide)]
  have hctrl : bus.wrCtrlreg = false := by simp [SpiBus.wrCtrlreg, haddr]
  have hstart : y.spi.starts bus = true := by simp [Spi.starts, h.state, hrq]
  have hstate : y.spi.clockState bus = { y.spi with
      shiftOut := y.spi.outgoing bus, state := .shifting, bitcount := y.spi.regBitcount,
      ssActive := true, ssReqActive := true, rdhold := bus.rdDatareg, wrhold := false } := by
    cases hr : bus.rdDatareg <;> simp [Spi.clockState, h.state, hrq, hr, h.rdhold]
  have hspi : (y.clock dev bus).spi = y.spi.posedge bus := by
    simp only [SpiSystem.clock, hneg]
  refine ⟨?_, ?_, ?_⟩
  · rw [hspi, Spi.posedge, hstate]
  · rw [hspi, Spi.posedge, Spi.clockRegs, hctrl, if_neg (by decide)]
    dsimp only
    split <;> rfl
  · simp only [SpiSystem.clock, hneg, hstart]
    rfl

/-- **A late load** starts a transfer of its own. -/
theorem load_late (dev : Slave χ) (h : Quiet y.spi) :
    ∃ z, waitWhile dev Spi.rbusy 34 (y.clock dev loadBus) = some z ∧ Quiet z.spi ∧
      z.spi.regBitcount = y.spi.regBitcount ∧ z.transfers.length = y.transfers.length + 1 := by
  obtain ⟨hspi, hbits, htr⟩ := clock_start dev h loadBus rfl
    (by simp [Spi.trxRq, SpiBus.rdDatareg, loadBus])
  set y' := y.clock dev loadBus with hy'
  set z : SpiSystem χ := { y' with spi := { y'.spi with rdhold := false } } with hz
  have hheld : y' = held z := by
    have hr : y'.spi.rdhold = true := by rw [hspi]; rfl
    rw [hz, held]
    dsimp only
    rw [← hr]
  have hsh : Shifting z.spi y.spi.regBitcount.toNat := by
    have hs : y'.spi.state = .shifting := by rw [hspi]
    have hb : y'.spi.bitcount = y.spi.regBitcount := by rw [hspi]
    have hw : y'.spi.wrhold = false := by rw [hspi]
    exact ⟨hs, congrArg BitVec.toNat hb, hw, rfl⟩
  obtain ⟨hq, hsame⟩ := idleClocks_shifting dev hsh
  have hlt := y.spi.regBitcount.isLt
  refine ⟨_, by rw [hheld, waitWhile_held hsh (by omega)], hq, ?_, ?_⟩
  · exact hsame.regBitcount.trans hbits
  · rw [hsame.transfers]
    exact (congrArg List.length htr).trans (by simp)

/-! ### Accesses and exchanges -/

/-- The number of bits of a transfer, less one, after a store to the control register. -/
def bitsAfter (lane : ℕ) (value : BitVec 8) (bits : BitVec 5) : BitVec 5 :=
  if (ctrlBus lane value).wrCtrlreg && (ctrlBus lane value).we.getLsbD 0 then
    Spi.lengthBits (ctrlBus lane value).wdata
  else bits

/-- A store to the control register, at any time. -/
theorem runOp_ctrl (dev : Slave χ) (h : Quiet y.spi) (g : Gap) (lane : ℕ) (value : BitVec 8) :
    runOp dev g y (.ctrl lane value) = some (y.clock dev (ctrlBus lane value), []) ∧
      Quiet (y.clock dev (ctrlBus lane value)).spi ∧
      (y.clock dev (ctrlBus lane value)).spi.regBitcount = bitsAfter lane value y.spi.regBitcount ∧
      (y.clock dev (ctrlBus lane value)).transfers = y.transfers := by
  have hneg : y.negedge dev (ctrlBus lane value).miso2 = y := by
    rw [SpiSystem.negedge, h.state, if_neg (by decide)]
  have hrq : y.spi.trxRq (ctrlBus lane value) = false := by
    simp [Spi.trxRq, SpiBus.rdDatareg, SpiBus.wrDatareg, ctrlBus, h.wrhold]
  have hstart : y.spi.starts (ctrlBus lane value) = false := by simp [Spi.starts, hrq]
  have hspi : (y.clock dev (ctrlBus lane value)).spi = y.spi.posedge (ctrlBus lane value) := by
    simp only [SpiSystem.clock, hneg]
  have hstate : (y.spi.clockState (ctrlBus lane value)).state = .idle ∧
      (y.spi.clockState (ctrlBus lane value)).wrhold = false ∧
      (y.spi.clockState (ctrlBus lane value)).rdhold = false := by
    simp only [Spi.clockState, h.state, hrq, Bool.false_eq_true, if_false]
    split_ifs
    · exact ⟨rfl, h.wrhold, h.rdhold⟩
    · exact ⟨h.state, h.wrhold, h.rdhold⟩
  refine ⟨by rw [runOp, idleClocks_quiet h], ?_, ?_, ?_⟩
  · rw [hspi]
    exact ⟨hstate.1, hstate.2.1, hstate.2.2⟩
  · have hregs : (y.spi.posedge (ctrlBus lane value)).regBitcount
        = (y.spi.clockRegs (ctrlBus lane value)).regBitcount := rfl
    rw [hspi, hregs, Spi.clockRegs, bitsAfter]
    cases (ctrlBus lane value).wrCtrlreg with
    | true => simp
    | false =>
      simp only [Bool.false_and, Bool.false_eq_true, if_false]
      split_ifs <;> rfl
  · simp only [SpiSystem.clock, hneg, hstart]
    rfl

/-- The store of an exchange. -/
theorem store_spec (dev : Slave χ) (h : Quiet y.spi) (word : BitVec 32) :
    Shifting (y.clock dev (storeBus word)).spi y.spi.regBitcount.toNat ∧
      (y.clock dev (storeBus word)).spi.regBitcount = y.spi.regBitcount ∧
      (y.clock dev (storeBus word)).transfers.length = y.transfers.length + 1 := by
  obtain ⟨hspi, hbits, htr⟩ := clock_start dev h (storeBus word) rfl
    (by simp [Spi.trxRq, SpiBus.wrDatareg, storeBus])
  refine ⟨⟨by rw [hspi], by rw [hspi], by rw [hspi], by rw [hspi]; rfl⟩, hbits, ?_⟩
  rw [htr, List.length_append]
  rfl

theorem wait_wbusy (h : y.spi.wrhold = false) : waitWhile dev Spi.wbusy 34 y = some y := by
  rw [waitWhile, Spi.wbusy, h]
  rfl

/-- What is left by an exchange whose load is in time. -/
def exchanged (dev : Slave χ) (y : SpiSystem χ) (word : BitVec 32) : SpiSystem χ :=
  idleClocks dev (y.spi.regBitcount.toNat + 1) (y.clock dev (storeBus word))

/-- An exchange whose load is in time does not depend on the gaps. -/
theorem runOp_exchange_inTime (dev : Slave χ) (h : Quiet y.spi) (g : Gap)
    (hg : g.between ≤ y.spi.regBitcount.toNat) (word : BitVec 32) (dest : Option Dest) :
    runOp dev g y (.exchange word dest)
        = some (exchanged dev y word, storesOf dest (exchanged dev y word).spi.rdata) ∧
      Quiet (exchanged dev y word).spi ∧
      (exchanged dev y word).spi.regBitcount = y.spi.regBitcount ∧
      (exchanged dev y word).transfers.length = y.transfers.length + 1 := by
  obtain ⟨hsh, hbits, htr⟩ := store_spec dev h word
  obtain ⟨hq, hsame⟩ := idleClocks_shifting dev hsh
  have hload := load_inTime dev hsh y.spi.regBitcount.isLt hg
  refine ⟨?_, hq, hsame.regBitcount.trans hbits, ?_⟩
  · rw [runOp, idleClocks_quiet h, wait_wbusy hsh.wrhold]
    simp only [Option.bind_eq_bind, Option.bind_some, hload]
    rfl
  · rw [exchanged, hsame.transfers, htr]

/-- An exchange whose load is late performs one transfer more. -/
theorem runOp_exchange_late (dev : Slave χ) (h : Quiet y.spi) (g : Gap)
    (hg : y.spi.regBitcount.toNat < g.between) (word : BitVec 32) (dest : Option Dest) :
    ∃ z stores, runOp dev g y (.exchange word dest) = some (z, stores) ∧ Quiet z.spi ∧
      z.spi.regBitcount = y.spi.regBitcount ∧ z.transfers.length = y.transfers.length + 2 := by
  obtain ⟨hsh, hbits, htr⟩ := store_spec dev h word
  obtain ⟨hq, hsame⟩ := idleClocks_shifting dev hsh
  obtain ⟨k, hk⟩ : ∃ k, g.between = y.spi.regBitcount.toNat + 1 + k :=
    ⟨g.between - (y.spi.regBitcount.toNat + 1), by omega⟩
  have hidle : idleClocks dev g.between (y.clock dev (storeBus word))
      = idleClocks dev (y.spi.regBitcount.toNat + 1) (y.clock dev (storeBus word)) := by
    rw [hk, idleClocks_add, idleClocks_quiet hq]
  obtain ⟨z, hz, hqz, hbz, htz⟩ := load_late dev hq
  refine ⟨z, storesOf dest z.spi.rdata, ?_, hqz, ?_, ?_⟩
  · rw [runOp, idleClocks_quiet h, wait_wbusy hsh.wrhold]
    simp only [Option.bind_eq_bind, Option.bind_some, hidle, hz]
    rfl
  · rw [hbz, hsame.regBitcount, hbits]
  · rw [htz, hsame.transfers, htr]

end

/-! ### Runs -/

/-- Every load comes before the end of the transfer that its store has started: `bits` is the length
of transfers, less one, and changes with the control register. -/
def InTime (gaps : ℕ → Gap) : ℕ → BitVec 5 → List SpiOp → Prop
  | _, _, [] => True
  | k, bits, .ctrl lane value :: ops => InTime gaps (k + 1) (bitsAfter lane value bits) ops
  | k, bits, .exchange _ _ :: ops => (gaps k).between ≤ bits.toNat ∧ InTime gaps (k + 1) bits ops

/-- The number of exchanges. -/
def exchanges : List SpiOp → ℕ
  | [] => 0
  | .ctrl _ _ :: ops => exchanges ops
  | .exchange _ _ :: ops => exchanges ops + 1

section

variable {dev}

/-- The transfers of a run: one for each exchange, and more exactly when a load is late. -/
theorem run_transfers (gaps : ℕ → Gap) :
    ∀ (ops : List SpiOp) (k : ℕ) (y : SpiSystem χ), Quiet y.spi →
    ∃ z stores, run dev gaps k ops y = some (z, stores) ∧
      y.transfers.length + exchanges ops ≤ z.transfers.length ∧
      (z.transfers.length = y.transfers.length + exchanges ops ↔
        InTime gaps k y.spi.regBitcount ops) := by
  intro ops
  induction ops with
  | nil => intro k y _; exact ⟨y, [], rfl, le_rfl, iff_of_true rfl trivial⟩
  | cons op ops ih =>
    intro k y hy
    cases op with
    | ctrl lane value =>
      obtain ⟨hop, hq, hbits, htr⟩ := runOp_ctrl dev hy (gaps k) lane value
      obtain ⟨z, stores, hrun, hle, hiff⟩ := ih (k + 1) _ hq
      refine ⟨z, [] ++ stores, by simp [run, hop, hrun], ?_, ?_⟩
      · rwa [htr] at hle
      · rwa [htr, hbits] at hiff
    | exchange word dest =>
      rcases Nat.lt_or_ge y.spi.regBitcount.toNat (gaps k).between with hlate | hin
      · -- a late load: one transfer too many, and no later access takes it back
        obtain ⟨z₁, st, hop, hq, hbits, htr⟩ := runOp_exchange_late dev hy (gaps k) hlate word dest
        obtain ⟨z, stores, hrun, hle, -⟩ := ih (k + 1) _ hq
        refine ⟨z, st ++ stores, by simp [run, hop, hrun], ?_, ?_⟩
        · rw [exchanges]; omega
        · refine iff_of_false (by rw [exchanges]; omega) fun h => ?_
          exact absurd h.1 (by omega)
      · obtain ⟨hop, hq, hbits, htr⟩ := runOp_exchange_inTime dev hy (gaps k) hin word dest
        obtain ⟨z, stores, hrun, hle, hiff⟩ := ih (k + 1) _ hq
        refine ⟨z, storesOf dest (exchanged dev y word).spi.rdata ++ stores, by
          simp [run, hop, hrun], ?_, ?_⟩
        · rw [exchanges]; omega
        · rw [hbits] at hiff
          rw [exchanges, InTime, and_iff_right hin, ← hiff, htr]
          omega

/-- Two runs in time are the same. -/
theorem run_congr {gaps gaps' : ℕ → Gap} :
    ∀ (ops : List SpiOp) (k : ℕ) (y : SpiSystem χ), Quiet y.spi →
    InTime gaps k y.spi.regBitcount ops → InTime gaps' k y.spi.regBitcount ops →
    run dev gaps k ops y = run dev gaps' k ops y := by
  intro ops
  induction ops with
  | nil => intro k y _ _ _; rfl
  | cons op ops ih =>
    intro k y hy h h'
    cases op with
    | ctrl lane value =>
      obtain ⟨hop, hq, hbits, -⟩ := runOp_ctrl dev hy (gaps k) lane value
      obtain ⟨hop', -, -, -⟩ := runOp_ctrl dev hy (gaps' k) lane value
      have := ih (k + 1) _ hq (by rw [hbits]; exact h) (by rw [hbits]; exact h')
      simp only [run, hop, hop', Option.bind_eq_bind, Option.bind_some, this]
    | exchange word dest =>
      obtain ⟨hop, hq, hbits, -⟩ := runOp_exchange_inTime dev hy (gaps k) h.1 word dest
      obtain ⟨hop', -, -, -⟩ := runOp_exchange_inTime dev hy (gaps' k) h'.1 word dest
      have := ih (k + 1) _ hq (by rw [hbits]; exact h.2) (by rw [hbits]; exact h'.2)
      simp only [run, hop, hop', Option.bind_eq_bind, Option.bind_some, this]

/-- What can be seen of a run: its transfers and its stores. -/
def observed (r : Option (SpiSystem χ × List MemStore)) : Option (List Transfer × List MemStore) :=
  r.map fun r => (r.1.transfers, r.2)

theorem observed_eq_iff {gaps gaps' : ℕ → Gap} {ops : List SpiOp} {k : ℕ} {y : SpiSystem χ}
    (hy : Quiet y.spi) (h' : InTime gaps' k y.spi.regBitcount ops) :
    observed (run dev gaps k ops y) = observed (run dev gaps' k ops y) ↔
      InTime gaps k y.spi.regBitcount ops := by
  constructor
  · intro h
    obtain ⟨z, st, hrun, -, hiff⟩ := run_transfers gaps ops k y hy
    obtain ⟨z', st', hrun', -, hiff'⟩ := run_transfers gaps' ops k y hy
    rw [hrun, hrun'] at h
    obtain ⟨htr, -⟩ : z.transfers = z'.transfers ∧ st = st' := by simpa [observed] using h
    rw [← hiff, htr, hiff']
    exact h'
  · intro h
    rw [run_congr ops k y hy h h']

end

/-! ### The reads of `flash_memcpy` -/

/-- Every load of `flash_memcpy` is executed before its transfer has ended: at most 31 clocks come
between the store and the load of a word, and at most 7 between those of a byte. -/
def LoadsInTime (gaps : ℕ → Gap) (a2 : BitVec 32) : Prop :=
  (gaps 3).between ≤ 31 ∧ (∀ j < copyTurns a2, (gaps (5 + j)).between ≤ 31) ∧
    ∀ j < a2.toNat % 4, (gaps (7 + copyTurns a2 + j)).between ≤ 7

section

variable {gaps : ℕ → Gap}

theorem inTime_exchangeLoop (byte : Bool) (len : BitVec 32) (bits : BitVec 5) (ops : List SpiOp) :
    ∀ (n k : ℕ) (a1 : BitVec 32), InTime gaps k bits (exchangeLoop byte len n a1 ++ ops) ↔
      (∀ j < n, (gaps (k + j)).between ≤ bits.toNat) ∧ InTime gaps (k + n) bits ops := by
  intro n
  induction n with
  | zero => intro k a1; simp [exchangeLoop]
  | succ n ih =>
    intro k a1
    have hshift : k + 1 + n = k + (n + 1) := by omega
    rw [exchangeLoop, List.cons_append, InTime, ih, ← and_assoc, hshift]
    refine and_congr_left fun _ =>
      ⟨fun ⟨h0, h⟩ j hj => ?_, fun h => ⟨h 0 (by omega), fun j hj => ?_⟩⟩
    · cases j with
      | zero => exact h0
      | succ j =>
        have := h j (by omega)
        rwa [show k + 1 + j = k + (j + 1) by omega] at this
    · have := h (j + 1) (by omega)
      rwa [show k + (j + 1) = k + 1 + j by omega] at this

/-- The transfers of `flash_memcpy` are words until the remainder, whatever the register held
before. -/
theorem inTime_flashMemcpy_iff (a0 a1 a2 : BitVec 32) (bits : BitVec 5) :
    InTime gaps 0 bits (flashMemcpy a0 a1 a2) ↔ LoadsInTime gaps a2 := by
  have hword : ∀ b, bitsAfter 0 3#8 b = 31#5 := fun _ => rfl
  have hbyte : ∀ b, bitsAfter 0 0#8 b = 7#5 := fun _ => rfl
  have hkeep : ∀ v b, bitsAfter 2 v b = b := by
    intro v b
    simp [bitsAfter, ctrlBus]
  rw [flashMemcpy, LoadsInTime]
  simp only [List.cons_append, List.nil_append, InTime, hword, hkeep, copyLoop, inTime_exchangeLoop]
  refine and_congr Iff.rfl (and_congr Iff.rfl ?_)
  by_cases h3 : a2.toNat % 4 = 0
  · simp [h3, InTime]
  · have hsum : 0 + 1 + 1 + 1 + 1 + 1 + copyTurns a2 + 1 + 1 = 7 + copyTurns a2 := by omega
    simp only [h3, if_false, List.cons_append, InTime, remainderLoop, inTime_exchangeLoop, hkeep,
      hbyte, and_true, hsum]
    exact Iff.rfl

end

/-- **Flash reads and interrupts**: for every device on the flash port, from any state with no
transfer going on, and for every schedule of interrupts, `flash_memcpy` performs the transfers and
the stores of the run without interrupts exactly when every load comes before its transfer has
ended.  `base` has the clocks that the processor takes by itself, at most 5 between two accesses
(`FemtoRV32.next_execute`), and `delay` those of the interrupts. -/
theorem flashMemcpy_schedule_iff (y : SpiSystem χ) (hy : Quiet y.spi) (a0 a1 a2 : BitVec 32)
    (base delay : ℕ → Gap) (hbase : ∀ k, (base k).between ≤ 5) :
    observed (run dev (fun k => (base k).delayed (delay k)) 0 (flashMemcpy a0 a1 a2) y)
        = observed (run dev base 0 (flashMemcpy a0 a1 a2) y) ↔
      LoadsInTime (fun k => (base k).delayed (delay k)) a2 := by
  have hin : InTime base 0 y.spi.regBitcount (flashMemcpy a0 a1 a2) := by
    rw [inTime_flashMemcpy_iff]
    exact ⟨(hbase _).trans (by decide), fun _ _ => (hbase _).trans (by decide),
      fun _ _ => (hbase _).trans (by decide)⟩
  rw [observed_eq_iff hy hin, inTime_flashMemcpy_iff]

/-- The engine after a reset, with a flash that holds its low byte at each address. -/
def resetSystem : SpiSystem FlashChip :=
  ⟨⟨0#5, 0#2, false, 0#32, 0#32, 0#5, 0#32, 0#32, false, false, false, false, .idle⟩, ⟨0, 0#32⟩, []⟩

/-- Interrupts that take 25 clocks before each load leave a read of 4 bytes as it is. -/
theorem shortInterrupts_same :
    observed (run (flashChip (BitVec.setWidth 8)) (fun _ => Gap.delayed ⟨3, 3⟩ ⟨40, 25⟩) 0
        (flashMemcpy 0x100#32 0x12000#32 4#32) resetSystem)
      = observed (run (flashChip (BitVec.setWidth 8)) (fun _ => ⟨3, 3⟩) 0
        (flashMemcpy 0x100#32 0x12000#32 4#32) resetSystem) :=
  (flashMemcpy_schedule_iff (flashChip (BitVec.setWidth 8)) resetSystem ⟨rfl, rfl, rfl⟩ 0x100#32
    0x12000#32 4#32 (fun _ => ⟨3, 3⟩) (fun _ => ⟨40, 25⟩) (fun _ => by decide)).mpr
    ⟨by decide, fun _ _ => (by decide : 28 ≤ 31), fun _ h => absurd h (Nat.not_lt_zero _)⟩

/-- One interrupt of 60 clocks before the load of the copied word: the load starts a third transfer,
and the word that is stored is the one after the word that was asked for. -/
theorem longInterrupt_differs :
    observed (run (flashChip (BitVec.setWidth 8)) (fun _ => ⟨3, 3⟩) 0
        (flashMemcpy 0x100#32 0x12000#32 4#32) resetSystem)
      = some ([⟨0x03000100#32, 31#5, 0#2⟩, ⟨0xFFFFFFFF#32, 31#5, 0#2⟩],
        [⟨0x12000#32, false, 0x03020100#32⟩]) ∧
    observed (run (flashChip (BitVec.setWidth 8))
        (fun k => Gap.delayed ⟨3, 3⟩ (if k = 5 then ⟨0, 60⟩ else ⟨0, 0⟩)) 0
        (flashMemcpy 0x100#32 0x12000#32 4#32) resetSystem)
      = some ([⟨0x03000100#32, 31#5, 0#2⟩, ⟨0xFFFFFFFF#32, 31#5, 0#2⟩,
        ⟨0xFFFFFFFF#32, 31#5, 0#2⟩], [⟨0x12000#32, false, 0x07060504#32⟩]) := by
  decide +kernel

end Filestick.SpiFlash
