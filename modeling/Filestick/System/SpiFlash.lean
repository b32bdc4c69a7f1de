import Filestick.Rtl.Spi
import Mathlib.Algebra.Group.Nat.Defs

/-!
# Reading the flash (`spi_flash.S`)

`flash_memcpy` is a fixed sequence of accesses to the SPI engine: stores to its control register,
and exchanges, each of them a store to the data register, a load from it and a store of what was
loaded. The processor takes some clocks between two accesses, and an interrupt between two
instructions adds any number of them: `Gap` gives, for each access, the clocks in which the engine
sees nothing.
-/

namespace Filestick.SpiFlash

/-- Where a loaded value goes: a word (`sw`) or its low byte (`sb`). -/
structure Dest where
  addr : BitVec 32
  byte : Bool

/-- A store to memory. -/
structure MemStore where
  addr : BitVec 32
  byte : Bool
  data : BitVec 32
deriving DecidableEq

/-- The accesses of the program to the engine. -/
inductive SpiOp where
  | ctrl (lane : ℕ) (value : BitVec 8)
  | exchange (word : BitVec 32) (dest : Option Dest)

/-- `n` turns of a loop: an exchange, and a store of what it brings, at addresses that are `len`
apart. -/
def exchangeLoop (byte : Bool) (len : BitVec 32) : ℕ → BitVec 32 → List SpiOp
  | 0, _ => []
  | n + 1, a1 => .exchange 0xFFFFFFFF#32 (some ⟨a1, byte⟩) :: exchangeLoop byte len n (a1 + len)

/-- `.copy_loop`. -/
def copyLoop : ℕ → BitVec 32 → List SpiOp := exchangeLoop false 4#32

/-- `.remainder_loop`. -/
def remainderLoop : ℕ → BitVec 32 → List SpiOp := exchangeLoop true 1#32

/-- The turns of `.copy_loop`: the count is only compared with 0 after it is decremented, so that no
words at all take `2 ^ 32` turns. -/
def copyTurns (a2 : BitVec 32) : ℕ := if a2.toNat / 4 = 0 then 2 ^ 32 else a2.toNat / 4

/-- `flash_memcpy`: source, destination and size. -/
def flashMemcpy (a0 a1 a2 : BitVec 32) : List SpiOp :=
  let t3 := a2.toNat % 4
  -- the port of the flash, big endian, 32 bits; the read command with its address; little endian
  [.ctrl 1 0#8, .ctrl 2 1#8, .ctrl 0 3#8, .exchange (0x03000000#32 ||| a0) none, .ctrl 2 0#8] ++
    (copyLoop (copyTurns a2) a1 ++
    ((if t3 = 0 then [] else
      [.ctrl 0 0#8, .ctrl 2 1#8] ++
        remainderLoop t3 (a1 + 4#32 * BitVec.ofNat 32 (copyTurns a2))) ++
    [.ctrl 3 0#8]))

/-! ### Running on the engine -/

/-- No access. -/
def noBus : SpiBus := ⟨0#4, false, false, 0#2, 0#32, false⟩

/-- `sb` to a byte of the control register. -/
def ctrlBus (lane : ℕ) (value : BitVec 8) : SpiBus :=
  ⟨1#4 <<< lane, false, true, 2#2, value.setWidth 32 <<< (8 * lane), false⟩

/-- `sw` to the data register. -/
def storeBus (word : BitVec 32) : SpiBus := ⟨0b1111#4, false, true, 0#2, word, false⟩

/-- A load from the data register. -/
def loadBus : SpiBus := ⟨0#4, true, true, 0#2, 0#32, false⟩

/-- The clocks before the access, and those between the store and the load of an exchange. -/
structure Gap where
  before : ℕ
  between : ℕ

/-- The clocks of the processor and those of the interrupts on top of them. -/
def Gap.delayed (g delay : Gap) : Gap := ⟨g.before + delay.before, g.between + delay.between⟩

variable {χ : Type} (dev : Slave χ)

/-- Clocks without an access. -/
def idleClocks : ℕ → SpiSystem χ → SpiSystem χ
  | 0, y => y
  | n + 1, y => idleClocks n (y.clock dev noBus)

/-- The processor waits while `busy` is high, for at most `fuel` clocks. -/
def waitWhile (busy : Spi → Bool) : ℕ → SpiSystem χ → Option (SpiSystem χ)
  | 0, _ => none
  | fuel + 1, y => if busy y.spi then waitWhile busy fuel (y.clock dev noBus) else some y

/-- What is stored of a loaded value. -/
def storesOf (dest : Option Dest) (rdata : BitVec 32) : List MemStore :=
  match dest with
  | none => []
  | some d => [⟨d.addr, d.byte, if d.byte then rdata.setWidth 8 |>.setWidth 32 else rdata⟩]

/-- One access or exchange. -/
def runOp (g : Gap) (y : SpiSystem χ) : SpiOp → Option (SpiSystem χ × List MemStore)
  | .ctrl lane value => some ((idleClocks dev g.before y).clock dev (ctrlBus lane value), [])
  | .exchange word dest => do
    let y ← waitWhile dev Spi.wbusy 34 ((idleClocks dev g.before y).clock dev (storeBus word))
    let y ← waitWhile dev Spi.rbusy 34 ((idleClocks dev g.between y).clock dev loadBus)
    return (y, storesOf dest y.spi.rdata)

/-- A run: the `k`-th operation, and those after it, with their gaps. -/
def run (gaps : ℕ → Gap) : ℕ → List SpiOp → SpiSystem χ → Option (SpiSystem χ × List MemStore)
  | _, [], y => some (y, [])
  | k, op :: ops, y => do
    let (y, stores) ← runOp dev (gaps k) y op
    let (y, rest) ← run gaps (k + 1) ops y
    return (y, stores ++ rest)

/-! ### A flash -/

/-- A flash on the bus: the bits since it was selected, and the first 32 of them. -/
structure FlashChip where
  bits : ℕ
  header : BitVec 32

/-- The read command: 8 bits of command and 24 of address go in, and then the bytes from that
address on come out, highest bit first. -/
def flashChip (content : BitVec 24 → BitVec 8) : Slave FlashChip where
  pulse c mosi :=
    if c.bits < 32 then
      (⟨c.bits + 1, c.header <<< 1 ||| (BitVec.ofBool mosi).setWidth 32⟩, false)
    else
      let offset := (c.bits - 32) / 8
      let data := content (c.header.setWidth 24 + BitVec.ofNat 24 offset)
      (⟨c.bits + 1, c.header⟩,
        c.header.extractLsb' 24 8 == 0x03#8 && data.getLsbD (7 - (c.bits - 32) % 8))
  deselect _ := ⟨0, 0#32⟩

end Filestick.SpiFlash
