import Mathlib.Data.List.Basic

/-!
# The SPI engine (`spi.v`)

`Spi` has the registers of the module.  A clock of the system (`SpiSystem.clock`) is a falling edge,
on which a bit is shifted in, and the rising edge after it, on which the state machine moves.  The
device on the flash port is a parameter: a `Slave` sees one pulse of the SPI clock for each clock
that the engine spends in `STATE_SHIFTING`, with the bit on `MOSI`, and answers with the bit on
`MISO`.
-/

namespace Filestick

/-- The states of `spi`. -/
inductive SpiState where
  | idle
  | shifting
deriving DecidableEq, Repr

/-- The bus of the processor on one clock, and the `MISO` line of the second port. -/
structure SpiBus where
  we : BitVec 4
  rd : Bool
  select : Bool
  addr : BitVec 2
  wdata : BitVec 32
  miso2 : Bool

/-- The registers of `spi`. -/
structure Spi where
  regBitcount : BitVec 5
  regSs : BitVec 2
  regBigEndian : Bool
  regWrite : BitVec 32
  regRead : BitVec 32
  bitcount : BitVec 5
  shiftIn : BitVec 32
  shiftOut : BitVec 32
  ssActive : Bool
  ssReqActive : Bool
  rdhold : Bool
  wrhold : Bool
  state : SpiState
deriving DecidableEq

/-- The bytes of a word in the opposite order. -/
def swapBytes (w : BitVec 32) : BitVec 32 :=
  w.extractLsb' 0 8 ++ w.extractLsb' 8 8 ++ w.extractLsb' 16 8 ++ w.extractLsb' 24 8

/-- The bytes of `old`, with those of `new` in the lanes that `we` selects. -/
def writeLanes (old new : BitVec 32) (we : BitVec 4) : BitVec 32 :=
  let lane := fun k : ℕ =>
    if we.getLsbD k then new.extractLsb' (8 * k) 8 else old.extractLsb' (8 * k) 8
  lane 3 ++ lane 2 ++ lane 1 ++ lane 0

namespace SpiBus

/-- `rd_datareg`. -/
def rdDatareg (b : SpiBus) : Bool := b.addr == 0#2 && b.select && b.rd

/-- `wr_datareg`. -/
def wrDatareg (b : SpiBus) : Bool := b.addr == 0#2 && b.select && b.we != 0#4

/-- `wr_ctrlreg`. -/
def wrCtrlreg (b : SpiBus) : Bool := b.addr == 2#2 && b.select && b.we != 0#4

end SpiBus

namespace Spi

/-- `wdata_endian`. -/
def wdataEndian (s : Spi) (wdata : BitVec 32) : BitVec 32 :=
  if s.regBigEndian then wdata else swapBytes wdata

/-- `rdata` of the data register. -/
def rdata (s : Spi) : BitVec 32 := if s.regBigEndian then s.regRead else swapBytes s.regRead

/-- `rbusy`, while the processor reads the data register. -/
def rbusy (s : Spi) : Bool := s.rdhold && s.state == .shifting

/-- `wbusy`, while the processor writes the data register. -/
def wbusy (s : Spi) : Bool := s.wrhold

/-- `spi_mosi`. -/
def mosi (s : Spi) : Bool := s.shiftOut.getLsbD 31

/-- `spi_ss[0]` is low: the device on the flash port is selected. -/
def ss0 (s : Spi) : Bool := s.ssActive && s.regSs == 0#2

/-- `trx_rq`. -/
def trxRq (s : Spi) (b : SpiBus) : Bool := b.rdDatareg || b.wrDatareg || s.wrhold

/-- The number of bits of a transfer, less one, for a value of the length field. -/
def lengthBits (wdata : BitVec 32) : BitVec 5 :=
  match (wdata.extractLsb' 0 2).toNat with
  | 0 => 7#5
  | 1 => 15#5
  | 2 => 23#5
  | _ => 31#5

/-- The control registers. -/
def clockRegs (s : Spi) (b : SpiBus) : Spi :=
  if b.wrCtrlreg then
    { s with
      regBitcount := if b.we.getLsbD 0 then lengthBits b.wdata else s.regBitcount
      regSs := if b.we.getLsbD 1 then b.wdata.extractLsb' 8 2 else s.regSs
      regBigEndian := if b.we.getLsbD 2 then b.wdata.getLsbD 16 else s.regBigEndian }
  else if b.select && b.we != 0#4 && (b.addr == 0#2 || b.addr == 1#2) then
    { s with
      regWrite := if s.regBigEndian then writeLanes s.regWrite b.wdata b.we
        else swapBytes (writeLanes (swapBytes s.regWrite) b.wdata b.we) }
  else s

/-- A transfer starts on this clock. -/
def starts (s : Spi) (b : SpiBus) : Bool := s.state == .idle && s.trxRq b

/-- What a transfer sends that starts on this clock. -/
def outgoing (s : Spi) (b : SpiBus) : BitVec 32 :=
  if b.wrDatareg then s.wdataEndian b.wdata else s.regWrite

/-- The state machine on the rising edge. -/
def clockState (s : Spi) (b : SpiBus) : Spi :=
  match s.state with
  | .idle =>
    if s.trxRq b then
      { s with
        shiftOut := s.outgoing b
        state := .shifting
        bitcount := s.regBitcount
        ssActive := true
        ssReqActive := true
        -- a read waits for the end of the transfer that it starts
        rdhold := if b.rdDatareg then true else s.rdhold
        wrhold := false }
    else if b.wrCtrlreg && b.we.getLsbD 3 then
      { s with ssActive := b.wdata.getLsbD 24, ssReqActive := b.wdata.getLsbD 24 }
    else s
  | .shifting =>
    if s.bitcount = 0#5 then
      { s with
        regRead := s.shiftIn
        state := .idle
        rdhold := false
        -- a request to deselect the device is met when the transfer ends
        ssActive := if b.wrCtrlreg && b.we.getLsbD 3 then b.wdata.getLsbD 24 else s.ssReqActive
        ssReqActive := if b.wrCtrlreg && b.we.getLsbD 3 then b.wdata.getLsbD 24 else s.ssReqActive
        wrhold := if b.wrDatareg then true else s.wrhold }
    else
      { s with
        -- a write to the data register is held until the transfer ends
        shiftOut := s.shiftOut <<< 1
        bitcount := s.bitcount - 1#5
        rdhold := if b.rdDatareg then true else s.rdhold
        ssReqActive := if b.wrCtrlreg && b.we.getLsbD 3 then b.wdata.getLsbD 24 else s.ssReqActive
        wrhold := if b.wrDatareg then true else s.wrhold }

/-- The rising edge: the two blocks read the registers before it. -/
def posedge (s : Spi) (b : SpiBus) : Spi :=
  { s.clockState b with
    regBitcount := (s.clockRegs b).regBitcount
    regSs := (s.clockRegs b).regSs
    regBigEndian := (s.clockRegs b).regBigEndian
    regWrite := (s.clockRegs b).regWrite }

end Spi

/-! ### The engine and the device on its flash port -/

/-- A device: what a pulse of the SPI clock does to it, with the bits on `MOSI` and `MISO`, and what
deselecting it does. -/
structure Slave (χ : Type) where
  pulse : χ → Bool → χ × Bool
  deselect : χ → χ

/-- A transfer: what is sent, the number of bits less one, and the selected device. -/
structure Transfer where
  word : BitVec 32
  bits : BitVec 5
  ss : BitVec 2
deriving DecidableEq

/-- The engine, the device, and the transfers that were started. -/
structure SpiSystem (χ : Type) where
  spi : Spi
  slave : χ
  transfers : List Transfer

namespace SpiSystem

variable {χ : Type} (dev : Slave χ)

/-- The falling edge: a bit is exchanged with the selected port. -/
def negedge (y : SpiSystem χ) (miso2 : Bool) : SpiSystem χ :=
  if y.spi.state = .shifting then
    if y.spi.regSs = 0#2 then
      let r := dev.pulse y.slave y.spi.mosi
      { y with
        slave := r.1
        spi := { y.spi with shiftIn := y.spi.shiftIn <<< 1 ||| (BitVec.ofBool r.2).setWidth 32 } }
    else
      { y with
        spi := { y.spi with shiftIn := y.spi.shiftIn <<< 1 ||| (BitVec.ofBool miso2).setWidth 32 } }
  else y

/-- One clock of the system. -/
def clock (y : SpiSystem χ) (b : SpiBus) : SpiSystem χ :=
  let y := y.negedge dev b.miso2
  let spi := y.spi.posedge b
  { spi := spi
    slave := if y.spi.ss0 && !spi.ss0 then dev.deselect y.slave else y.slave
    transfers :=
      if y.spi.starts b then
        y.transfers ++ [⟨y.spi.outgoing b, y.spi.regBitcount, y.spi.regSs⟩]
      else y.transfers }

end SpiSystem

end Filestick
