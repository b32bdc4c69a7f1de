import Filestick.Lib.Overlay
import Filestick.Lib.ShiftRegister
import Filestick.Rtl.Spi
import Filestick.System.Elfload

/-!
# Blocks over SPI (`spi.S`)

`Port` is the SPI engine as a program sees it that is not interrupted: a store to the data register
exchanges the bytes of one transfer, and a load after it brings them.  `miso k` is the byte that
comes in while the byte `k` is sent.  `spi_write` and `spi_read` are the same code around different
loop bodies.  A loop counts a register down and stops when it is 0, so it gets as many turns as the
register has values.
-/

namespace Filestick.SpiBlock

open Elf (Addr Mem)
open ShiftRegister (shiftIn topBits topByte)

/-- The registers of the engine, and all bytes that it has sent. -/
structure Port where
  bytes : ℕ
  bigEndian : Bool
  regRead : BitVec 32
  active : Bool
  sent : List (BitVec 8)
deriving DecidableEq, Repr

/-- A store to `OFFS_SPI_REG_BITCOUNT`. -/
def Port.setBitcount (p : Port) (value : BitVec 8) : Port :=
  { p with bytes := (value.extractLsb' 0 2).toNat + 1 }

/-- A store to `OFFS_SPI_REG_ENDIAN`. -/
def Port.setEndian (p : Port) (value : BitVec 8) : Port :=
  { p with bigEndian := value.getLsbD 0 }

/-- A store to `OFFS_SPI_REG_ACTIVE`. -/
def Port.setActive (p : Port) (value : BitVec 8) : Port :=
  { p with active := value.getLsbD 0 }

/-- A store to `OFFS_SPI_DAT`: the bytes of the shift register go out from its high end, and as many
come in at its low end. -/
def Port.store (miso : ℕ → BitVec 8) (p : Port) (wdata : BitVec 32) : Port :=
  let out := if p.bigEndian then wdata else swapBytes wdata
  let answer := Overlay.slice miso p.sent.length p.bytes
  { p with
    sent := p.sent ++ (List.range p.bytes).map (topByte out)
    regRead := shiftIn p.regRead (answer.flatMap (topBits 8))
    active := true }

/-- A load from `OFFS_SPI_DAT`. -/
def Port.rdata (p : Port) : BitVec 32 := if p.bigEndian then p.regRead else swapBytes p.regRead

/-- The buffer pointer `a0`, the memory and the engine. -/
structure Xfer where
  a0 : Addr
  mem : Mem
  port : Port

/-- `lw`. -/
def loadWord (mem : Mem) (a : Addr) : BitVec 32 :=
  mem (a + 3#32) ++ mem (a + 2#32) ++ mem (a + 1#32) ++ mem a

/-- `sw`. -/
def storeWord (mem : Mem) (a : Addr) (x : BitVec 32) : Mem :=
  Ring.writeAll mem a (Elf.wordBytes x)

/-! ### The loops -/

/-- `.wr_un_loop1` and the loops like it, with `t2` bytes to go. -/
def unLoop (body : Xfer → Xfer) : ℕ → BitVec 32 → Xfer → Option Xfer
  | 0, _, _ => none
  | fuel + 1, t2, x =>
    let x := { body x with a0 := x.a0 + 1#32 }
    if t2 - 1#32 ≠ 0#32 then unLoop body fuel (t2 - 1#32) x else some x

/-- `.wr_aligned_loop` and `.rd_aligned_loop`, with `a1` bytes to go. -/
def alignedLoop (body : Xfer → Xfer) : ℕ → BitVec 32 → Xfer → Option Xfer
  | 0, _, _ => none
  | fuel + 1, a1, x =>
    let x := { body x with a0 := x.a0 + 4#32 }
    if a1 - 4#32 ≠ 0#32 then alignedLoop body fuel (a1 - 4#32) x else some x

/-- `.wr_unaligned_2` and `.rd_unaligned_2`. -/
def unaligned2 (byteBody : Xfer → Xfer) (t2 : BitVec 32) (x : Xfer) : Option Xfer :=
  unLoop byteBody (2 ^ 32) t2 { x with port := x.port.setBitcount 0#8 }

/-- `.spi_write_cont1` and `.spi_read_cont1`. -/
def cont1 (byteBody wordBody : Xfer → Xfer) (a1 : BitVec 32) (x : Xfer) : Option Xfer := do
  let t2 := a1 &&& 3#32
  let a1 := a1 - t2
  if a1 = 0#32 then unaligned2 byteBody t2 x
  else
    let x ← alignedLoop wordBody (2 ^ 32) a1 { x with port := x.port.setBitcount 3#8 }
    if t2 = 0#32 then return x
    unaligned2 byteBody t2 x

/-- `spi_write` and `spi_read` up to the label `.write_done` or `.read_done`. -/
def moveBlock (byteBody wordBody : Xfer → Xfer) (a1 : BitVec 32) (x : Xfer) : Option Xfer := do
  if a1 = 0#32 then return x
  let x := { x with port := x.port.setEndian 0#8 }
  let t2 := x.a0 &&& 3#32
  if t2 = 0#32 then cont1 byteBody wordBody a1 x
  else
    let t2 := 4#32 - t2
    let a1 := a1 - t2
    let x ← unLoop byteBody (2 ^ 32) t2 { x with port := x.port.setBitcount 0#8 }
    if a1 = 0#32 then return x
    cont1 byteBody wordBody a1 x

/-- The end of both: slave select is deasserted. -/
def finish (deassert : Bool) (x : Xfer) : Xfer :=
  if deassert then { x with port := x.port.setActive 0#8 } else x

/-! ### The functions -/

variable (miso : ℕ → BitVec 8)

/-- The body of `.wr_un_loop1` and `.wr_un_loop2`. -/
def wrByte (x : Xfer) : Xfer :=
  { x with port := x.port.store miso ((x.mem x.a0).setWidth 32) }

/-- The body of `.wr_aligned_loop`. -/
def wrWord (x : Xfer) : Xfer := { x with port := x.port.store miso (loadWord x.mem x.a0) }

/-- `spi_write`. -/
def spiWrite (mem : Mem) (port : Port) (src : Addr) (size : BitVec 32) (deassert : Bool) :
    Option Xfer :=
  (moveBlock (wrByte miso) (wrWord miso) size ⟨src, mem, port⟩).map (finish deassert)

/-- The body of `.rd_un_loop1` and `.rd_un_loop2`: the byte is in the highest lane. -/
def rdByte (a3 : BitVec 32) (x : Xfer) : Xfer :=
  let port := x.port.store miso ((a3.setWidth 8).setWidth 32)
  { x with port := port, mem := Function.update x.mem x.a0 (port.rdata.extractLsb' 24 8) }

/-- The body of `.rd_aligned_loop`. -/
def rdWord (a3 : BitVec 32) (x : Xfer) : Xfer :=
  let port := x.port.store miso a3
  { x with port := port, mem := storeWord x.mem x.a0 port.rdata }

/-- `spi_read`. -/
def spiRead (mem : Mem) (port : Port) (dst : Addr) (size : BitVec 32) (deassert : Bool)
    (wrWord : BitVec 32) : Option Xfer :=
  (moveBlock (rdByte miso wrWord) (rdWord miso wrWord) size ⟨dst, mem, port⟩).map (finish deassert)

end Filestick.SpiBlock
