import Filestick.Lib.ShiftRegister
import Filestick.System.Equiv.SpiFlash

/-!
# What an exchange does to the device on the flash port

An exchange whose load comes in time gives the device the bits of the stored value, highest first,
and takes in its answer at the low end of a register that keeps the last 32 bits.

* `Slave.pulses`: the answer of a device to a list of bits.
* `exchangedBy_spec`: the engine and the device after an exchange, for any store to the data
  register.
* `clock_ctrl_length`, `clock_ctrl_ss`, `clock_ctrl_endian`, `clock_ctrl_active`: the stores to the
  four bytes of the control register.
-/

namespace Filestick

open ShiftRegister

/-- The device after a list of bits, and its answer. -/
def Slave.pulses {χ : Type} (dev : Slave χ) : χ → List Bool → χ × List Bool
  | c, [] => (c, [])
  | c, b :: bs => ((dev.pulses (dev.pulse c b).1 bs).1,
      (dev.pulse c b).2 :: (dev.pulses (dev.pulse c b).1 bs).2)

section

variable {χ : Type} (dev : Slave χ)

@[simp] theorem Slave.pulses_nil (c : χ) : dev.pulses c [] = (c, []) := rfl

theorem Slave.pulses_cons (c : χ) (b : Bool) (bs : List Bool) :
    dev.pulses c (b :: bs) = ((dev.pulses (dev.pulse c b).1 bs).1,
      (dev.pulse c b).2 :: (dev.pulses (dev.pulse c b).1 bs).2) := rfl

theorem Slave.pulses_append (c : χ) (bs bs' : List Bool) :
    dev.pulses c (bs ++ bs') = ((dev.pulses (dev.pulses c bs).1 bs').1,
      (dev.pulses c bs).2 ++ (dev.pulses (dev.pulses c bs).1 bs').2) := by
  induction bs generalizing c with
  | nil => rfl
  | cons b bs ih => rw [List.cons_append, pulses_cons, ih, pulses_cons, List.cons_append]

@[simp] theorem Slave.length_pulses (c : χ) (bs : List Bool) :
    (dev.pulses c bs).2.length = bs.length := by
  induction bs generalizing c with
  | nil => rfl
  | cons b bs ih => rw [pulses_cons, List.length_cons, ih, List.length_cons]

end

namespace SpiFlash

variable {χ : Type} {dev : Slave χ} {y z : SpiSystem χ}

/-- The transfer is with the flash, and leaves it selected. -/
structure Selected (s : Spi) : Prop where
  regSs : s.regSs = 0#2
  ssActive : s.ssActive = true
  ssReqActive : s.ssReqActive = true

/-- What is left by a transfer that sends `bits` to the flash. -/
structure Exchanged (dev : Slave χ) (bits : List Bool) (y z : SpiSystem χ) : Prop where
  slave : z.slave = (dev.pulses y.slave bits).1
  shiftIn : z.spi.shiftIn = shiftIn y.spi.shiftIn (dev.pulses y.slave bits).2
  regRead : z.spi.regRead = z.spi.shiftIn
  regBitcount : z.spi.regBitcount = y.spi.regBitcount
  regBigEndian : z.spi.regBigEndian = y.spi.regBigEndian
  selected : Selected z.spi

/-! ### A transfer -/

/-- One clock in the middle of a transfer with the flash. -/
theorem clock_shifting_eq (dev : Slave χ) (hs : y.spi.state = .shifting) (h0 : y.spi.bitcount ≠ 0#5)
    (hss : y.spi.regSs = 0#2) :
    y.clock dev noBus = { y with
      slave := (dev.pulse y.slave y.spi.mosi).1
      spi := { y.spi with
        shiftIn := y.spi.shiftIn <<< 1 |||
          (BitVec.ofBool (dev.pulse y.slave y.spi.mosi).2).setWidth 32
        shiftOut := y.spi.shiftOut <<< 1
        bitcount := y.spi.bitcount - 1#5 } } := by
  have hneg : y.negedge dev noBus.miso2 = { y with
      slave := (dev.pulse y.slave y.spi.mosi).1
      spi := { y.spi with shiftIn := y.spi.shiftIn <<< 1 |||
        (BitVec.ofBool (dev.pulse y.slave y.spi.mosi).2).setWidth 32 } } := by
    rw [SpiSystem.negedge, if_pos hs, if_pos hss]
  have hpos := posedge_shifting (b := noBus) hs h0 rfl
    (y.spi.shiftIn <<< 1 ||| (BitVec.ofBool (dev.pulse y.slave y.spi.mosi).2).setWidth 32)
    y.spi.rdhold
  rw [sampled] at hpos
  simp only [SpiSystem.clock, hneg, hpos]
  simp [Spi.starts, hs, sampled, Spi.ss0, SpiBus.rdDatareg, noBus]

/-- The last clock of a transfer with the flash. -/
theorem clock_last_eq (hs : y.spi.state = .shifting) (h0 : y.spi.bitcount = 0#5)
    (hsel : Selected y.spi) :
    y.clock dev noBus = { y with
      slave := (dev.pulse y.slave y.spi.mosi).1
      spi := { y.spi with
        shiftIn := y.spi.shiftIn <<< 1 |||
          (BitVec.ofBool (dev.pulse y.slave y.spi.mosi).2).setWidth 32
        regRead := y.spi.shiftIn <<< 1 |||
          (BitVec.ofBool (dev.pulse y.slave y.spi.mosi).2).setWidth 32
        state := .idle
        rdhold := false } } := by
  have hneg : y.negedge dev noBus.miso2 = { y with
      slave := (dev.pulse y.slave y.spi.mosi).1
      spi := { y.spi with shiftIn := y.spi.shiftIn <<< 1 |||
        (BitVec.ofBool (dev.pulse y.slave y.spi.mosi).2).setWidth 32 } } := by
    rw [SpiSystem.negedge, if_pos hs, if_pos hsel.regSs]
  have hpos := posedge_last (b := noBus) hs h0 rfl
    (y.spi.shiftIn <<< 1 ||| (BitVec.ofBool (dev.pulse y.slave y.spi.mosi).2).setWidth 32)
    y.spi.rdhold
  rw [sampled] at hpos
  simp only [SpiSystem.clock, hneg, hpos]
  simp [Spi.starts, hs, sampled, Spi.ss0, hsel.ssReqActive, hsel.ssActive]

/-- **The rest of a transfer**: each clock sends a bit and takes one in. -/
theorem idleClocks_exchanged (dev : Slave χ) {n : ℕ} (h : Shifting y.spi n)
    (hsel : Selected y.spi) :
    Exchanged dev (topBits (n + 1) y.spi.shiftOut) y (idleClocks dev (n + 1) y) := by
  induction n generalizing y with
  | zero =>
    have h0 : y.spi.bitcount = 0#5 := BitVec.eq_of_toNat_eq h.bitcount
    rw [idleClocks, idleClocks, clock_last_eq h.state h0 hsel]
    exact ⟨rfl, rfl, rfl, rfl, rfl, ⟨hsel.regSs, hsel.ssActive, hsel.ssReqActive⟩⟩
  | succ n ih =>
    have h0 : y.spi.bitcount ≠ 0#5 := by
      intro h0
      have := h.bitcount
      rw [h0] at this
      simp at this
    obtain ⟨hsh, -, -, -⟩ := clock_shifting dev h
    have hclock := clock_shifting_eq dev h.state h0 hsel.regSs
    have hsel' : Selected (y.clock dev noBus).spi := by
      rw [hclock]
      exact ⟨hsel.regSs, hsel.ssActive, hsel.ssReqActive⟩
    obtain ⟨hslave, hin, hread, hbits, hbig, hend⟩ := ih hsh hsel'
    rw [hclock] at hslave hin hread hbits hbig hend
    rw [idleClocks, hclock]
    refine ⟨?_, ?_, hread, hbits, hbig, hend⟩
    · rw [topBits_succ]
      exact hslave
    · rw [topBits_succ]
      exact hin

/-! ### An exchange -/

/-- What is left by a store to the data register, once its transfer has ended. -/
def exchangedBy (dev : Slave χ) (y : SpiSystem χ) (bus : SpiBus) : SpiSystem χ :=
  idleClocks dev (y.spi.regBitcount.toNat + 1) (y.clock dev bus)

/-- A store to the data register. -/
structure DataStore (bus : SpiBus) : Prop where
  addr : bus.addr = 0#2
  store : bus.wrDatareg = true
  noLoad : bus.rdDatareg = false

/-- **A store to the data register of a quiet engine** gives the flash the bits of the value. -/
theorem exchangedBy_spec (dev : Slave χ) (h : Quiet y.spi) (hss : y.spi.regSs = 0#2) {bus : SpiBus}
    (hbus : DataStore bus) :
    Shifting (y.clock dev bus).spi y.spi.regBitcount.toNat ∧ Quiet (exchangedBy dev y bus).spi ∧
      Exchanged dev (topBits (y.spi.regBitcount.toNat + 1) (y.spi.wdataEndian bus.wdata)) y
        (exchangedBy dev y bus) := by
  obtain ⟨hspi, hbits, -⟩ := clock_start dev h bus hbus.addr (by simp [Spi.trxRq, hbus.store])
  have hneg : y.negedge dev bus.miso2 = y := by
    rw [SpiSystem.negedge, h.state, if_neg (by decide)]
  have hctrl : bus.wrCtrlreg = false := by simp [SpiBus.wrCtrlreg, hbus.addr]
  have hregs : (y.spi.clockRegs bus).regSs = y.spi.regSs ∧
      (y.spi.clockRegs bus).regBigEndian = y.spi.regBigEndian := by
    rw [Spi.clockRegs, hctrl, if_neg (by decide)]
    split <;> exact ⟨rfl, rfl⟩
  have hin : (y.spi.posedge bus).shiftIn = y.spi.shiftIn := by
    show (y.spi.clockState bus).shiftIn = _
    simp [Spi.clockState, h.state, Spi.trxRq, hbus.store]
  have hsel : Selected (y.clock dev bus).spi := by
    rw [hspi]
    exact ⟨hregs.1.trans hss, rfl, rfl⟩
  have hslave : (y.clock dev bus).slave = y.slave := by
    have hon : (y.clock dev bus).spi.ss0 = true := by
      rw [Spi.ss0, hsel.ssActive, hsel.regSs]
      rfl
    have hon' : (y.spi.posedge bus).ss0 = true := by
      have heq : (y.clock dev bus).spi = y.spi.posedge bus := by simp only [SpiSystem.clock, hneg]
      rwa [heq] at hon
    simp [SpiSystem.clock, hneg, hon']
  have hsh : Shifting (y.clock dev bus).spi y.spi.regBitcount.toNat := by
    rw [hspi]
    exact ⟨rfl, rfl, rfl, hbus.noLoad⟩
  have hout : (y.clock dev bus).spi.shiftOut = y.spi.wdataEndian bus.wdata := by
    rw [hspi, Spi.outgoing, hbus.store]
    rfl
  obtain ⟨hs, hi, hr, hb, he, hact⟩ := idleClocks_exchanged dev hsh hsel
  rw [hslave, hout] at hs hi
  refine ⟨hsh, (idleClocks_shifting dev hsh).1, hs, ?_, hr, hb.trans hbits, ?_, hact⟩
  · rw [exchangedBy, hi, hspi]
    exact congrArg (fun x => shiftIn x _) hin
  · rw [exchangedBy, he, hspi]
    exact hregs.2

/-- An exchange with a load in time, for any store to the data register. -/
theorem load_exchangedBy (dev : Slave χ) (h : Quiet y.spi) (hss : y.spi.regSs = 0#2) {bus : SpiBus}
    (hbus : DataStore bus) {g : ℕ} (hg : g ≤ y.spi.regBitcount.toNat) :
    waitWhile dev Spi.wbusy 34 (y.clock dev bus) = some (y.clock dev bus) ∧
      waitWhile dev Spi.rbusy 34 ((idleClocks dev g (y.clock dev bus)).clock dev loadBus) =
        some (exchangedBy dev y bus) := by
  obtain ⟨hsh, -, -⟩ := exchangedBy_spec dev h hss hbus
  exact ⟨wait_wbusy hsh.wrhold, load_inTime dev hsh y.spi.regBitcount.isLt hg⟩

/-! ### Stores to the control register -/

/-- A store to the control register of a quiet engine. -/
theorem clock_ctrl (h : Quiet y.spi) (lane : ℕ) (value : BitVec 8) :
    y.clock dev (ctrlBus lane value) =
      { y with
        spi := y.spi.posedge (ctrlBus lane value)
        slave := if y.spi.ss0 && !(y.spi.posedge (ctrlBus lane value)).ss0 then
          dev.deselect y.slave else y.slave } := by
  have hneg : y.negedge dev (ctrlBus lane value).miso2 = y := by
    rw [SpiSystem.negedge, h.state, if_neg (by decide)]
  have hstart : y.spi.starts (ctrlBus lane value) = false := by
    simp [Spi.starts, Spi.trxRq, SpiBus.rdDatareg, SpiBus.wrDatareg, ctrlBus, h.wrhold]
  simp only [SpiSystem.clock, hneg, hstart]
  rfl

/-- The rising edge of a store to the control register. -/
theorem posedge_ctrl (h : Quiet y.spi) (lane : ℕ) (value : BitVec 8) (hlane : lane < 4) :
    y.spi.posedge (ctrlBus lane value) =
      match lane with
      | 0 => { y.spi with regBitcount := Spi.lengthBits (value.setWidth 32) }
      | 1 => { y.spi with regSs := (value.setWidth 32 <<< 8).extractLsb' 8 2 }
      | 2 => { y.spi with regBigEndian := (value.setWidth 32 <<< 16).getLsbD 16 }
      | _ => { y.spi with
          ssActive := (value.setWidth 32 <<< 24).getLsbD 24
          ssReqActive := (value.setWidth 32 <<< 24).getLsbD 24 } := by
  obtain rfl | rfl | rfl | rfl : lane = 0 ∨ lane = 1 ∨ lane = 2 ∨ lane = 3 := by omega
  all_goals
    simp [Spi.posedge, Spi.clockState, Spi.clockRegs, h.state, h.wrhold, Spi.trxRq,
      SpiBus.wrCtrlreg, SpiBus.wrDatareg, SpiBus.rdDatareg, ctrlBus]

/-- A store to the length field. -/
theorem clock_ctrl_length (dev : Slave χ) (h : Quiet y.spi) (value : BitVec 8) :
    y.clock dev (ctrlBus 0 value) =
      { y with spi := { y.spi with regBitcount := Spi.lengthBits (value.setWidth 32) } } := by
  rw [clock_ctrl h, posedge_ctrl h 0 value (by decide)]
  simp [Spi.ss0]

/-- The flash is chosen. -/
theorem clock_ctrl_ss (dev : Slave χ) (h : Quiet y.spi) :
    y.clock dev (ctrlBus 1 0#8) = { y with spi := { y.spi with regSs := 0#2 } } := by
  have hss : ((0#8).setWidth 32 <<< 8).extractLsb' 8 2 = 0#2 := by decide
  rw [clock_ctrl h, posedge_ctrl h 1 0#8 (by decide)]
  simp only [hss, Spi.ss0]
  cases hact : y.spi.ssActive <;> simp

/-- A store to the byte order. -/
theorem clock_ctrl_endian (dev : Slave χ) (h : Quiet y.spi) (value : BitVec 8) :
    y.clock dev (ctrlBus 2 value) =
      { y with spi := { y.spi with regBigEndian := value.getLsbD 0 } } := by
  have hbit : (value.setWidth 32 <<< 16).getLsbD 16 = value.getLsbD 0 := by
    simp
  rw [clock_ctrl h, posedge_ctrl h 2 value (by decide)]
  simp only [hbit, Spi.ss0]
  simp

/-- The flash is deselected. -/
theorem clock_ctrl_active (dev : Slave χ) (h : Quiet y.spi) :
    y.clock dev (ctrlBus 3 0#8) =
      { y with
        spi := { y.spi with ssActive := false, ssReqActive := false }
        slave := if y.spi.ss0 then dev.deselect y.slave else y.slave } := by
  have hoff : ((0#8).setWidth 32 <<< 24).getLsbD 24 = false := by decide
  rw [clock_ctrl h, posedge_ctrl h 3 0#8 (by decide)]
  simp only [hoff, Spi.ss0]
  simp

end SpiFlash

end Filestick
