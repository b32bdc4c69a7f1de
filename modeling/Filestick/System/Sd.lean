import Filestick.Lib.Overlay
import Filestick.System.Diskio
import Filestick.System.Strings

/-!
# The SD card (`sd_io.c`, `sd_ldio.c`)

`miso k` is the byte that the card sends while it is sent the byte `k`.  `spi_byte`, `spi_write`
and `spi_read` exchange just the bytes that they are told to.  The variables `read` that are not
initialised have any value to begin with.  A loop with a counter gets as many turns as the counter
has values.
-/

namespace Filestick.Sd

open Elf (Addr Mem)

/-- The slave that has been set, and all that has been sent. -/
structure Bus where
  slave : BitVec 8
  sent : List (BitVec 8)
deriving DecidableEq, Repr

/-- `SD_SLAVE_ID`. -/
def sdSlaveId : BitVec 8 := 1#8

/-- `CMD17`. -/
def cmd17 : BitVec 8 := 0x51#8

/-- `CMD24`. -/
def cmd24 : BitVec 8 := 0x58#8

/-- `SD_READY`. -/
def sdReady : BitVec 8 := 0x00#8

/-- `SD_START_TOKEN`. -/
def sdStartToken : BitVec 8 := 0xFE#8

/-- `spi_set_slave`. -/
def spiSetSlave (b : Bus) (slave : BitVec 8) : Bus := { b with slave := slave &&& 3#8 }

/-- `spi_write`. -/
def spiWrite (b : Bus) (src : List (BitVec 8)) : Bus := { b with sent := b.sent ++ src }

/-- An `SDCmd` with an argument that is an address: `rsb` and `wsb`. -/
def command (cmd : BitVec 8) (addr : BitVec 32) : List (BitVec 8) :=
  [cmd, (addr >>> 24).setWidth 8, (addr >>> 16).setWidth 8, (addr >>> 8).setWidth 8,
    addr.setWidth 8, 0x00#8]

variable (miso : ℕ → BitVec 8)

/-- `spi_byte`. -/
def spiByte (b : Bus) (wrByte : BitVec 8) : BitVec 8 × Bus :=
  (miso b.sent.length, { b with sent := b.sent ++ [wrByte] })

/-- `spi_read`. -/
def spiRead (mem : Mem) (b : Bus) (dst : Addr) (size : ℕ) (wrWord : BitVec 32) : Mem × Bus :=
  (Ring.writeAll mem dst (Overlay.slice miso b.sent.length size),
    { b with sent := b.sent ++ List.replicate size (wrWord.setWidth 8) })

/-! ### The loops -/

/-- The loop of `sd_readres1`. -/
def readRes1Loop : ℕ → BitVec 8 → Bus → Option (BitVec 8 × Bus)
  | 0, _, _ => none
  | fuel + 1, i, b =>
    let r := spiByte miso b 0xFF#8
    if r.1 ≠ 0xFF#8 then some r
    else if 254#8 < i + 1#8 then some r
    else readRes1Loop fuel (i + 1#8) r.2

/-- `sd_readres1`. -/
def sdReadRes1 (b : Bus) : Option (BitVec 8 × Bus) := readRes1Loop miso (2 ^ 8) 0#8 b

/-- The loop of `sd_readsingleblk`, which waits for the token. -/
def tokenLoop : ℕ → BitVec 16 → BitVec 8 → Bus → Option (BitVec 8 × Bus)
  | 0, _, _, _ => none
  | fuel + 1, readAttempts, read, b =>
    if readAttempts + 1#16 = 65535#16 then some (read, b)
    else
      let r := spiByte miso b 0xFF#8
      if r.1 ≠ 0xFF#8 then some r
      else tokenLoop fuel (readAttempts + 1#16) r.1 r.2

/-- The first loop of `sd_writesingleblk`, which waits for the response to the data. -/
def responseLoop : ℕ → BitVec 16 → BitVec 8 → Bus → Option (BitVec 8 × Bus)
  | 0, _, _, _ => none
  | fuel + 1, readAttempts, read, b =>
    if readAttempts < 65535#16 then
      let r := spiByte miso b 0xFF#8
      if r.1 ≠ 0xFF#8 then some r
      else responseLoop fuel (readAttempts + 1#16) r.1 r.2
    else some (read, b)

/-- The second loop of `sd_writesingleblk`, while the card is busy: `*token` after it. -/
def busyLoop : ℕ → BitVec 16 → BitVec 8 → Bus → Option (BitVec 8 × Bus)
  | 0, _, _, _ => none
  | fuel + 1, readAttempts, token, b =>
    let r := spiByte miso b 0xFF#8
    if r.1 ≠ 0x00#8 then some (token, r.2)
    else if readAttempts + 1#16 = 65535#16 then some (0#8, r.2)
    else busyLoop fuel (readAttempts + 1#16) token r.2

/-! ### Blocks -/

/-- What `sd_readsingleblk` and `sd_writesingleblk` return and leave. -/
structure Blk where
  rx : BitVec 8
  token : BitVec 8
  mem : Mem
  bus : Bus

/-- `sd_readsingleblk`. -/
def sdReadSingleBlk (read : BitVec 8) (mem : Mem) (b : Bus) (addr : BitVec 32) (buf : Addr) :
    Option Blk := do
  let b := spiSetSlave b sdSlaveId
  let (rx, b) ← sdReadRes1 miso (spiWrite b (command cmd17 addr))
  if rx = 0xFF#8 then return ⟨rx, 0xFF#8, mem, b⟩
  let (read, b) ← tokenLoop miso (2 ^ 16) 0#16 read b
  if read = 0xFE#8 then
    let (mem, b) := spiRead miso mem b buf 512 0xFFFFFFFF#32
    -- the bytes of the CRC
    let b := (spiByte miso b 0xFF#8).2
    return ⟨rx, read, mem, (spiByte miso b 0xFF#8).2⟩
  return ⟨rx, read, mem, b⟩

/-- `sd_writesingleblk`. -/
def sdWriteSingleBlk (read token : BitVec 8) (mem : Mem) (b : Bus) (addr : BitVec 32)
    (buf : Addr) : Option Blk := do
  let b := spiSetSlave b sdSlaveId
  let (rx, b) ← sdReadRes1 miso (spiWrite b (command cmd24 addr))
  if rx ≠ sdReady then return ⟨rx, token, mem, b⟩
  let b := (spiByte miso b sdStartToken).2
  let (read, b) ← responseLoop miso (2 ^ 16) 0#16 read (spiWrite b (Ring.slice mem buf 512))
  let token := read &&& 0x1F#8
  if token = 0x05#8 then
    let (token, b) ← busyLoop miso (2 ^ 16) 0#16 token b
    return ⟨rx, token, mem, b⟩
  return ⟨rx, token, mem, b⟩

/-! ### The disc -/

/-- What `sd_read` and `sd_write` return and leave; no status is the one of a call that runs into
the end of the function, without a `return`. -/
structure Done where
  status : Option DResult
  mem : Mem
  bus : Bus

/-- The loop of `sd_read` while `n` blocks are left. -/
def sdReadLoop (read : BitVec 8) : ℕ → Mem → Bus → BitVec 32 → Addr → Option Done
  | 0, mem, b, _, _ => some ⟨some .ok, mem, b⟩
  | n + 1, mem, b, phys, buf => do
    let r ← sdReadSingleBlk miso read mem b phys buf
    if r.token ≠ 0xFE#8 ∨ 1#8 < r.rx then return ⟨some .error, r.mem, r.bus⟩
    sdReadLoop read n r.mem r.bus (phys + 1#32) (buf + 512#32)

/-- `sd_read`. -/
def sdRead (lbaOffset : BitVec 32) (read : BitVec 8) (mem : Mem) (b : Bus) (buf : Addr)
    (sector count : BitVec 32) : Option Done :=
  sdReadLoop miso read count.toNat mem b (sector + lbaOffset) buf

/-- The loop of `sd_write` while `n` blocks are left. -/
def sdWriteLoop (read : BitVec 8) : ℕ → BitVec 8 → Mem → Bus → BitVec 32 → Addr → Option Done
  | 0, _, mem, b, _, _ => some ⟨none, mem, b⟩
  | n + 1, token, mem, b, phys, buf => do
    let r ← sdWriteSingleBlk miso read token mem b phys buf
    if r.token ≠ 0x05#8 ∨ r.rx ≠ 0#8 then return ⟨some .error, r.mem, r.bus⟩
    sdWriteLoop read n r.token r.mem r.bus (phys + 1#32) (buf + 512#32)

/-- `sd_write`. -/
def sdWrite (lbaOffset : BitVec 32) (read token : BitVec 8) (mem : Mem) (b : Bus) (buf : Addr)
    (sector count : BitVec 32) : Option Done :=
  sdWriteLoop miso read count.toNat token mem b (sector + lbaOffset) buf

end Filestick.Sd
