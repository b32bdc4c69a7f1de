import Filestick.System.SpiFlash
import Mathlib.Logic.Function.Basic

/-!
# Writing the flash (`flash_byte`, `spiflash_writebuffer`)

`NorFlash` is a flash that can be erased and programmed: it takes commands byte by byte, carries out
a command when it is deselected, and is then busy until its status register was read some number of
times.  What it puts on `MISO` while it does not return its status, and how long it stays busy, are
parameters.

`spiflash_writebuffer` runs on the SPI engine, one access after the other; `gaps` has the clocks
before each access and between the store and the load of an exchange.
-/

namespace Filestick.SpiFlash

/-! ### The flash -/

/-- `FLASH_CMD_WREN`. -/
def flashCmdWren : BitVec 8 := 0x06#8

/-- `FLASH_CMD_SE`. -/
def flashCmdSe : BitVec 8 := 0x20#8

/-- `FLASH_CMD_PP`. -/
def flashCmdPp : BitVec 8 := 0x02#8

/-- `FLASH_CMD_RDSR`. -/
def flashCmdRdsr : BitVec 8 := 0x05#8

/-- A flash: its contents, the write enable latch, for how many more status bytes it is busy, how
often it has been deselected, and the bytes and bits that it has received since it was selected. -/
structure NorFlash where
  content : BitVec 24 → BitVec 8
  wel : Bool
  busy : ℕ
  selection : ℕ
  bytes : List (BitVec 8)
  bits : ℕ
  shift : BitVec 8

namespace NorFlash

/-- What the flash is free to do: the level of `MISO`, for each selection and byte, while it does
not return its status (and the other bits of the status), and for how many status bytes it is busy
after an operation that it starts in a selection. -/
structure Timing where
  line : ℕ → ℕ → BitVec 8
  busyFor : ℕ → ℕ

/-- The byte that the flash sends while it receives the next one. -/
def miso (t : Timing) (c : NorFlash) : BitVec 8 :=
  let level := t.line c.selection c.bytes.length
  if c.bytes.head? = some flashCmdRdsr then
    level.extractLsb' 1 7 ++ BitVec.ofBool (decide (0 < c.busy))
  else level

/-- A byte is complete. -/
def receive (c : NorFlash) (x : BitVec 8) : NorFlash :=
  { c with
    bytes := c.bytes ++ [x]
    busy := if c.bytes.head? = some flashCmdRdsr then c.busy - 1 else c.busy
    bits := 0
    shift := x }

/-- Erasing the sector of an address. -/
def erase (content : BitVec 24 → BitVec 8) (addr : BitVec 24) : BitVec 24 → BitVec 8 :=
  fun a => if a.toNat / 4096 = addr.toNat / 4096 then 0xFF#8 else content a

/-- The page buffer: data bytes go to successive cells, and wrap around at its end. -/
def pageBuffer (start : BitVec 8) (data : List (BitVec 8)) : BitVec 8 → BitVec 8 :=
  (data.foldl (fun p x => (Function.update p.1 p.2 x, p.2 + 1)) (fun _ => 0xFF#8, start)).1

/-- Programming the page of an address: bits can only be cleared. -/
def program (content : BitVec 24 → BitVec 8) (addr : BitVec 24) (data : List (BitVec 8)) :
    BitVec 24 → BitVec 8 :=
  fun a => if a.toNat / 256 = addr.toNat / 256 then
    content a &&& pageBuffer (addr.setWidth 8) data (a.setWidth 8) else content a

/-- The command is carried out; a busy flash ignores it. -/
def execute (t : Timing) (c : NorFlash) : NorFlash :=
  if c.busy ≠ 0 ∨ c.bits ≠ 0 then c
  else match c.bytes with
    | [cmd] => if cmd = flashCmdWren then { c with wel := true } else c
    | [cmd, a2, a1, a0] =>
      if cmd = flashCmdSe ∧ c.wel = true then
        { c with
          content := erase c.content (a2 ++ a1 ++ a0)
          wel := false
          busy := t.busyFor c.selection }
      else c
    | cmd :: a2 :: a1 :: a0 :: data =>
      if cmd = flashCmdPp ∧ c.wel = true then
        { c with
          content := program c.content (a2 ++ a1 ++ a0) data
          wel := false
          busy := t.busyFor c.selection }
      else c
    | _ => c

end NorFlash

/-- The flash on the bus: highest bit first. -/
def norFlash (t : NorFlash.Timing) : Slave NorFlash where
  pulse c mosi :=
    let shift := c.shift <<< 1 ||| (BitVec.ofBool mosi).setWidth 8
    (if c.bits = 7 then c.receive shift else { c with bits := c.bits + 1, shift := shift },
      (c.miso t).getMsbD c.bits)
  deselect c :=
    { c.execute t with selection := c.selection + 1, bytes := [], bits := 0 }

/-! ### The program -/

/-- `sb` to the data register. -/
def byteBus (x : BitVec 8) : SpiBus := ⟨0b0001#4, false, true, 0#2, x.setWidth 32, false⟩

/-- The engine with the flash, and the number of accesses so far. -/
structure FlashRun where
  sys : SpiSystem NorFlash
  accesses : ℕ

variable (t : NorFlash.Timing) (gaps : ℕ → Gap)

/-- A store to a byte of the control register. -/
def FlashRun.ctrl (lane : ℕ) (value : BitVec 8) (r : FlashRun) : FlashRun :=
  ⟨(idleClocks (norFlash t) (gaps r.accesses).before r.sys).clock (norFlash t)
    (ctrlBus lane value), r.accesses + 1⟩

/-- `*spi_reg_ss = SPI_SS`. -/
def selectPort : FlashRun → FlashRun := FlashRun.ctrl t gaps 1 0#8

/-- `*spi_reg_active = 0`. -/
def deselect : FlashRun → FlashRun := FlashRun.ctrl t gaps 3 0#8

/-- `flash_byte`: a transfer of one byte; the value is the lowest byte of the data register. -/
def flashByte (x : BitVec 8) (r : FlashRun) : Option (FlashRun × BitVec 8) := do
  let r := r.ctrl t gaps 0 0#8
  let g := gaps r.accesses
  let y ← waitWhile (norFlash t) Spi.wbusy 34
    ((idleClocks (norFlash t) g.before r.sys).clock (norFlash t) (byteBus x))
  let y ← waitWhile (norFlash t) Spi.rbusy 34
    ((idleClocks (norFlash t) g.between y).clock (norFlash t) loadBus)
  return (⟨y, r.accesses + 1⟩, y.spi.rdata.extractLsb' 0 8)

/-- Calls of `flash_byte` whose values are not used. -/
def flashBytes : List (BitVec 8) → FlashRun → Option FlashRun
  | [], r => some r
  | x :: xs, r => do
    let (r, _) ← flashByte t gaps x r
    flashBytes xs r

/-- `do status = flash_byte(0xFF); while(status & 1)`, for at most `fuel` turns. -/
def pollLoop : ℕ → FlashRun → Option FlashRun
  | 0, _ => none
  | fuel + 1, r => do
    let (r, status) ← flashByte t gaps 0xFF#8 r
    if status.getLsbD 0 then pollLoop fuel r else return r

/-- Waiting for the end of an erase or of a write. -/
def waitReady (fuel : ℕ) (r : FlashRun) : Option FlashRun := do
  let r ← flashBytes t gaps [flashCmdRdsr] r
  let r ← pollLoop t gaps fuel r
  return deselect t gaps r

/-- A command with the three bytes of the address, the highest first. -/
def command (cmd : BitVec 8) (offset : BitVec 32) : List (BitVec 8) :=
  [cmd, (offset >>> 16).setWidth 8, (offset >>> 8).setWidth 8, offset.setWidth 8]

/-- Write enable, and an operation with its data. -/
def operation (cmd : BitVec 8) (offset : BitVec 32) (data : List (BitVec 8)) (fuel : ℕ)
    (r : FlashRun) : Option FlashRun := do
  let r ← flashBytes t gaps [flashCmdWren] r
  let r := deselect t gaps r
  let r ← flashBytes t gaps (command cmd offset) r
  let r ← flashBytes t gaps data r
  waitReady t gaps fuel (deselect t gaps r)

/-- The pages of the sector: 256 bytes from `pageptr` for each. -/
def writePages (fuel : ℕ) : ℕ → BitVec 32 → List (BitVec 8) → FlashRun → Option FlashRun
  | 0, _, _, r => some r
  | n + 1, offset, pageptr, r => do
    let r ← operation t gaps flashCmdPp offset (pageptr.take 256) fuel r
    writePages fuel n (offset + 256#32) (pageptr.drop 256) r

/-- The variables of the driver, and the run. -/
structure WriteState where
  run : FlashRun
  writebuf : Option (List (BitVec 8))
  writeBlkOffset : BitVec 32

/-- `spiflash_writebuffer`. -/
def spiflashWritebuffer (fuel : ℕ) (s : WriteState) : Option WriteState := do
  let r ← operation t gaps flashCmdSe s.writeBlkOffset [] fuel (selectPort t gaps s.run)
  let r ← writePages t gaps fuel 16 s.writeBlkOffset (s.writebuf.getD []) r
  return ⟨deselect t gaps r, none, 0#32⟩

end Filestick.SpiFlash
