import Filestick.System.Diskio
import Filestick.System.SpiFlashdev

/-!
# The disc on the SPI flash (`flashdisc.c`)

`flashFd` is `flash_fd`, with `none` for a negative one.  `SYS_lseek`, `SYS_read` and `SYS_write`
hand the calls with it over to the SPI flash device.  An `off_t` is a signed number of 32 bits.  A
write asks for a sector buffer more than once, and `kmalloc t` says whether there is one at the turn
`t` of its loop.
-/

namespace Filestick.Flashdisc

open SpiFlashdev

/-- `SECTOR_SIZE`. -/
def sectorSize : BitVec 32 := 512#32

/-- `FS_START`. -/
def fsStart : BitVec 32 := 0x40000#32

/-- The loop of `spiflash_write` from the turn `turn` on, for at most `fuel` turns; `none` if it has
not come to its end. -/
def writeLoopFrom (kmalloc : ℕ → Bool) :
    ℕ → ℕ → Dev → ℕ → List (BitVec 8) → Option (Dev × Except Errno Unit)
  | 0, _, _, _, _ => none
  | fuel + 1, turn, d, fdinfo, buf =>
    match spiflashWriteToSector d (fileptr d fdinfo) buf (kmalloc turn) with
    | (d, .error e) => some (d, .error e)
    | (d, .ok bytes) =>
      let d := setFileptr d fdinfo ((fileptr d fdinfo + bytes) % 2 ^ 32)
      if (buf.drop bytes).length ≠ 0 then
        writeLoopFrom kmalloc fuel (turn + 1) d fdinfo (buf.drop bytes)
      else some (d, .ok ())

/-- `SYS_write`, which is `spiflash_write`. -/
def sysWrite (kmalloc : ℕ → Bool) (d : Dev) (fd : ℕ) (buf : List (BitVec 8)) :
    Option (Dev × Except Errno ℕ) :=
  match getFd d.fdList fd with
  | none => some (d, .error .eio)
  | some fdinfo =>
    (writeLoopFrom kmalloc (buf.length + 1) 0 d fdinfo buf).map fun r =>
      (r.1, r.2.map fun _ => buf.length)

/-- What `intflash_read` and `intflash_write` return and leave, with the result of the transfer that
they keep in `bytes`. -/
structure Transfer (α : Type) where
  status : DResult
  bytes : Option (Except Errno α)
  dev : Dev

/-- A position as an `off_t`. -/
def offT (p : ℕ) : ℤ := (BitVec.ofNat 32 p).toInt

/-- `intflash_read`. -/
def intflashRead (flashFd : Option ℕ) (d : Dev) (sector count : BitVec 32) :
    Transfer (List (BitVec 8)) :=
  match flashFd with
  | none => ⟨.notrdy, none, d⟩
  | some fd =>
    let flashaddress := fsStart + sector * sectorSize
    let bytecount := count * sectorSize
    match spiflashLseek d fd flashaddress.toNat .SEEK_SET with
    | (d, .error _) => ⟨.error, none, d⟩
    | (d, .ok rc) =>
      if offT rc < 0 then ⟨.error, none, d⟩
      else
        let r := spiflashRead d fd bytecount.toNat
        ⟨if offT rc > -1 then .ok else .error, some r.2, r.1⟩

/-- `intflash_write`, with `buf k` for the byte `k` of the buffer. -/
def intflashWrite (kmalloc : ℕ → Bool) (flashFd : Option ℕ) (d : Dev) (buf : ℕ → BitVec 8)
    (sector count : BitVec 32) : Option (Transfer ℕ) :=
  match flashFd with
  | none => some ⟨.notrdy, none, d⟩
  | some fd =>
    let flashaddress := fsStart + sector * sectorSize
    let bytecount := count * sectorSize
    match spiflashLseek d fd flashaddress.toNat .SEEK_SET with
    | (d, .error _) => some ⟨.error, none, d⟩
    | (d, .ok rc) =>
      if offT rc < 0 then some ⟨.error, none, d⟩
      else
        (sysWrite kmalloc d fd ((List.range bytecount.toNat).map buf)).map fun r =>
          ⟨if offT rc > -1 then .ok else .error, some r.2, r.1⟩

end Filestick.Flashdisc
